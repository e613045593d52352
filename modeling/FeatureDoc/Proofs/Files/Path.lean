import FeatureDoc.Files.Path
import FeatureDoc.Proofs.Text.TakeWhile
import Mathlib.Data.List.Lex
import Mathlib.Data.List.Nodup
import Mathlib.Data.Prod.Lex
import Mathlib.Data.String.Basic

/-!
# Paths in order

Paths are compared component by component. This is a linear order on lists of components, though not
on paths, since a path can be spelled in several ways.

* `Path.le_iff` says that the comparison of paths is that of their components.
* `Path.spell base way` is the path below `base` that the names on a way lead to. Its components are
  those of `base`, as far as they matter, and the names (`Path.exists_components_spell`), so
  different ways have different paths (`Path.components_spell_inj`).
* `Path.extension?_eq_some_iff` says what the extension of a name is, `Path.hasExtension_iff` what
  that of a path is.
-/

namespace FeatureDoc.Path

/-! ## The order of components -/

namespace Component

/-- What components are compared by. -/
def key (a : Component) : ℕ ×ₗ String := toLex (a.rank, a.text)

theorem key_injective : Function.Injective key := by
  intro a b h
  obtain ⟨hrank, htext⟩ := Prod.mk.inj (toLex_inj.1 h)
  cases a <;> cases b <;> simp_all [rank, text]

instance : LinearOrder Component := .lift' key key_injective

theorem lt_iff {a b : Component} : a < b ↔ a.lt b = true := by
  change a.key < b.key ↔ _
  simp [key, lt, Prod.Lex.toLex_lt_toLex]

end Component

theorem componentsLe_iff {as bs : List Component} : componentsLe as bs = true ↔ as ≤ bs := by
  rw [← not_lt]
  induction as generalizing bs with
  | nil => exact iff_of_true rfl (List.not_lt_nil bs)
  | cons a as ih =>
    cases bs with
    | nil => exact iff_of_false nofun (not_not_intro (List.nil_lt_cons a as))
    | cons b bs =>
      have hcons : b :: bs < a :: as ↔ b < a ∨ b = a ∧ bs < as := List.cons_lt_cons_iff
      rw [componentsLe, Bool.or_eq_true, Bool.and_eq_true, Bool.not_eq_true', Bool.eq_false_iff,
        ← Component.lt_iff, Ne, ← Component.lt_iff, ih, hcons]
      rcases lt_trichotomy a b with hlt | rfl | hlt
      · simp [hlt, hlt.ne', hlt.le]
      · simp
      · simp [hlt, hlt.le]

/-- Paths are compared by their components. -/
theorem le_iff {p q : String} : le p q = true ↔ components p ≤ components q := componentsLe_iff

/-- One path comes before another, component by component. -/
def Before (p q : String) : Prop := components p < components q

instance : DecidableRel Before := fun _ _ => inferInstanceAs (Decidable (_ < _))

theorem pairwise_mergeSort_le (paths : List String) :
    (paths.mergeSort le).Pairwise fun p q => components p ≤ components q := by
  have htrans : ∀ p q r : String, le p q = true → le q r = true → le p r = true := by
    simp only [le_iff]
    exact fun p q r => le_trans
  have htotal : ∀ p q : String, (le p q || le q p) = true := by
    simp only [Bool.or_eq_true, le_iff]
    exact fun p q => le_total _ _
  exact (List.pairwise_mergeSort htrans htotal paths).imp le_iff.1

section Sorting

variable {paths : List String} (h : (paths.map components).Nodup)

include h

/-- Paths with different components are sorted strictly. -/
theorem pairwise_mergeSort_before : (paths.mergeSort le).Pairwise Before := by
  have hne : (paths.mergeSort le).Pairwise fun p q => components p ≠ components q :=
    List.pairwise_map.1 (((List.mergeSort_perm paths le).map components).nodup_iff.2 h)
  exact ((pairwise_mergeSort_le paths).and hne).imp fun hpq => lt_of_le_of_ne hpq.1 hpq.2

/-- Paths with different components are sorted in one way only. -/
theorem mergeSort_eq_of_perm {paths' : List String} (hperm : paths.Perm paths') :
    paths.mergeSort le = paths'.mergeSort le := by
  have hboth : (paths.mergeSort le).Perm (paths'.mergeSort le) :=
    (List.mergeSort_perm paths le).trans (hperm.trans (List.mergeSort_perm paths' le).symm)
  refine List.Perm.eq_of_pairwise (fun p q hp hq hpq hqp => ?_) (pairwise_mergeSort_le paths)
    (pairwise_mergeSort_le paths') hboth
  exact List.inj_on_of_nodup_map h (List.mem_mergeSort.1 hp)
    (List.mem_mergeSort.1 (hboth.mem_iff.2 hq)) (le_antisymm hpq hqp)

end Sorting

/-- To sort paths is to find the list of them that is strictly sorted. -/
theorem mergeSort_eq_of_before {paths sorted : List String} (hperm : paths.Perm sorted)
    (h : sorted.Pairwise Before) : paths.mergeSort le = sorted := by
  have hnodup : (paths.map components).Nodup := by
    rw [(hperm.map components).nodup_iff]
    exact List.pairwise_map.2 (h.imp ne_of_lt)
  rw [mergeSort_eq_of_perm hnodup hperm]
  exact List.mergeSort_of_pairwise (h.imp fun hpq => le_iff.2 hpq.le)

/-! ## Spelling -/

/-- Something that an entry of a directory can be called. -/
def IsName (name : String) : Prop := name ≠ "" ∧ name ≠ "." ∧ name ≠ ".." ∧ '/' ∉ name.toList

instance : DecidablePred IsName := fun _ => inferInstanceAs (Decidable (_ ∧ _ ∧ _ ∧ _))

/-- The path below a directory that the names on a way lead to. -/
def spell (base : String) (way : List String) : String := join base (String.intercalate "/" way)

theorem component?_of_isName {name : String} (h : IsName name) :
    component? name = some (.name name) := by
  obtain ⟨hempty, hdot, hdots, -⟩ := h
  simp [component?, hempty, hdot, hdots]

variable {way : List String}

theorem pieces_intercalate (hne : way ≠ []) (h : ∀ name ∈ way, IsName name) :
    pieces (String.intercalate "/" way) = way := by
  have hslash : ∀ cs ∈ way.map String.toList, '/' ∉ cs := by
    intro cs hcs
    obtain ⟨name, hname, rfl⟩ := List.mem_map.1 hcs
    exact (h name hname).2.2.2
  have hsplit := List.splitOn_intercalate '/' hslash (by simpa using hne)
  rw [pieces, String.toList_intercalate, show "/".toList = ['/'] from rfl, hsplit, List.map_map]
  simp [Function.comp_def]

theorem pieces_append_slash (front back : String) :
    pieces (front ++ "/" ++ back) = pieces front ++ pieces back := by
  have hlist : (front ++ "/" ++ back).toList = front.toList ++ '/' :: back.toList := by simp
  rw [pieces, hlist, List.splitOn_append_cons_self, List.map_append]
  rfl

theorem pieces_ne_nil (path : String) : pieces path ≠ [] := by
  simp [pieces]

/-- A directory contributes the same pieces to all paths below it. -/
theorem exists_pieces_spell (base : String) : ∃ front, front ≠ [] ∧
    ∀ way, way ≠ [] → (∀ name ∈ way, IsName name) → pieces (spell base way) = front ++ way := by
  by_cases hslash : base.toList.getLast? = some '/'
  · obtain ⟨front, hfront⟩ := List.getLast?_eq_some_iff.1 hslash
    have hbase : base = String.ofList front ++ "/" := by
      rw [← String.toList_inj, hfront, String.toList_append, String.toList_ofList]
      rfl
    refine ⟨_, pieces_ne_nil (String.ofList front), fun way hne h => ?_⟩
    rw [spell, join, if_pos hslash, hbase, pieces_append_slash, pieces_intercalate hne h]
  · refine ⟨_, pieces_ne_nil base, fun way hne h => ?_⟩
    rw [spell, join, if_neg hslash, pieces_append_slash, pieces_intercalate hne h]

theorem filterMap_component?_of_isName (h : ∀ name ∈ way, IsName name) :
    way.filterMap component? = way.map .name := by
  rw [← List.filterMap_eq_map]
  exact List.filterMap_congr fun name hname => component?_of_isName (h name hname)

/-- A directory contributes the same components to all paths below it. -/
theorem exists_components_spell (base : String) : ∃ front, ∀ way, way ≠ [] →
    (∀ name ∈ way, IsName name) → components (spell base way) = front ++ way.map .name := by
  obtain ⟨_ | ⟨piece, front⟩, hne, hpieces⟩ := exists_pieces_spell base
  · exact absurd rfl hne
  refine ⟨(if piece = "" then [.root] else if piece = "." then [.current] else []) ++
    (piece :: front).filterMap component?, fun way hway h => ?_⟩
  obtain ⟨name, way', rfl⟩ := List.exists_cons_of_ne_nil hway
  rw [List.append_assoc, ← filterMap_component?_of_isName h, ← List.filterMap_append, components,
    hpieces _ hway h]
  by_cases hroot : piece = ""
  · subst hroot
    cases front <;> rfl
  by_cases hdot : piece = "."
  · subst hdot
    rfl
  · simp only [hroot, hdot, if_false, List.nil_append]
    split
    · next heq => exact absurd (List.cons.inj heq).1 hroot
    · next heq => exact absurd (List.cons.inj heq).1 hdot
    · rfl

/-- Different ways have different paths. -/
theorem components_spell_inj {base : String} {way' : List String} (hne : way ≠ [])
    (hne' : way' ≠ []) (h : ∀ name ∈ way, IsName name) (h' : ∀ name ∈ way', IsName name)
    (heq : components (spell base way) = components (spell base way')) : way = way' := by
  obtain ⟨front, hfront⟩ := exists_components_spell base
  rw [hfront way hne h, hfront way' hne' h', List.append_right_inj] at heq
  exact List.map_injective_iff.2 (fun _ _ => Component.name.inj) heq

/-! ## Extensions -/

/-- The extension of a name is what comes after its last dot, unless nothing comes before it. -/
theorem extension?_eq_some_iff {name ext : String} : extension? name = some ext ↔
    ∃ stem, stem ≠ [] ∧ name.toList = stem ++ '.' :: ext.toList ∧ '.' ∉ ext.toList := by
  rw [extension?]
  constructor
  · intro h
    have hsplit := List.takeWhile_append_dropWhile (p := (· != '.')) (l := name.toList.reverse)
    cases hdrop : name.toList.reverse.dropWhile (· != '.') with
    | nil => simp [hdrop] at h
    | cons d stem =>
      have hd := head?_dropWhile_eq_false (· != '.') name.toList.reverse
      rw [hdrop] at h hsplit hd
      obtain rfl : d = '.' := by simpa using hd
      rw [List.tail_cons, Option.ite_none_left_eq_some] at h
      obtain ⟨hstem, heq⟩ := h
      cases heq
      refine ⟨stem.reverse, by simpa using hstem, ?_, ?_⟩
      · simpa using (congrArg List.reverse hsplit).symm
      · rw [String.toList_ofList, List.mem_reverse]
        exact fun hmem => by simpa using List.mem_takeWhile_imp hmem
  · rintro ⟨stem, hstem, hname, hext⟩
    have hreverse : name.toList.reverse = ext.toList.reverse ++ '.' :: stem.reverse := by
      simp [hname]
    obtain ⟨htake, hdrop⟩ := takeWhile_ne_append (mt List.mem_reverse.1 hext) stem.reverse
    rw [← hreverse] at htake hdrop
    simp [hdrop, htake, hstem]

/-- A name has an extension, in capital or small letters, behind its last dot, and something before
that dot. -/
def NameEndsIn (extension name : String) : Prop :=
  ∃ stem ext, stem ≠ [] ∧ name.toList = stem ++ '.' :: ext ∧ '.' ∉ ext ∧
    ext.map Char.toLower = extension.toList

/-- The last component of a path is a name with an extension. -/
def EndsIn (extension path : String) : Prop :=
  ∃ name, (components path).getLast? = some (.name name) ∧ NameEndsIn extension name

theorem hasExtension_iff {extension path : String} :
    hasExtension extension path = true ↔ EndsIn extension path := by
  rw [hasExtension, EndsIn]
  split
  · next name hlast =>
    simp only [hlast, Option.some.injEq, Component.name.injEq, exists_eq_left', Option.any_eq_true,
      beq_iff_eq, extension?_eq_some_iff]
    constructor
    · rintro ⟨ext, ⟨stem, hstem, hname, hdot⟩, hlower⟩
      exact ⟨stem, ext.toList, hstem, hname, hdot, hlower⟩
    · rintro ⟨stem, ext, hstem, hname, hdot, hlower⟩
      exact ⟨String.ofList ext, ⟨stem, hstem, by simpa using hname, by simpa using hdot⟩,
        by simpa using hlower⟩
  · next hlast => exact iff_of_false nofun fun ⟨name, hname, _⟩ => hlast name hname

/-- A path below a directory ends in what the last name on the way ends in. -/
theorem endsIn_spell_iff {extension base : String} (hne : way ≠ [])
    (h : ∀ name ∈ way, IsName name) : EndsIn extension (spell base way) ↔
      ∃ name, way.getLast? = some name ∧ NameEndsIn extension name := by
  obtain ⟨front, hfront⟩ := exists_components_spell base
  obtain ⟨names, name, rfl⟩ := (List.eq_nil_or_concat' way).resolve_left hne
  rw [EndsIn, hfront _ hne h]
  simp

end FeatureDoc.Path
