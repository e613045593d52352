import FeatureDoc.Proofs.Grammar.Acceptance
import FeatureDoc.Proofs.Grammar.MapLine
import FeatureDoc.Proofs.Grammar.Resume

/-!
# Documents one after the other

A document can be continued with the entries of another one. Scanning is modular in lines
(`Cursor.Closed.tokens_append`), reading is modular in entries (`Feature.read_append`), and the
entries that come second stand on later lines (`Entry.mapsLine_readAll`).

* `readAll_of_parse_heading` finds the entries of the second document.
* `parse_append` is the main statement.
-/

namespace FeatureDoc

variable {a b : String}

/-- A text that begins with an entry does so on any line. -/
theorem beforeEntry_of_find? (line : Nat)
    (hb : ∃ t, (tokens b).find? (fun t => !t.kind.isTrivia) = some t ∧
      (t.kind = .tag ∨ t.kind = .scenario)) :
    BeforeEntry (⟨b.toList, 1 + line⟩ : Cursor).tokens := by
  obtain ⟨t, ht, hk⟩ := hb
  have hpeek : peek (skipTrivia (tokens b)) = t := by
    rw [List.find?_eq_head?_dropWhile_not] at ht
    simp only [Bool.not_not] at ht
    rw [peek, List.headD_eq_head?_getD, skipTrivia, ht]
    rfl
  have hline : (⟨b.toList, 1 + line⟩ : Cursor).tokens = (tokens b).map (Token.mapLine (· + line)) :=
    (Cursor.ofString b).tokens_mapLine line
  rwa [BeforeEntry, hline, skipTrivia_map, kind_peek_map, hpeek]

/-- The tokens of a heading without a text of its own. -/
theorem tokens_heading : tokens "Feature: X\n" =
    [⟨.feature, "Feature", 1⟩, ⟨.colon, ":", 1⟩, ⟨.stepBody, "X", 1⟩, ⟨.newline, "\n", 1⟩] ++
      [⟨.eof, "", 2⟩] := by
  decide +kernel

/-- The entries of a text that stands after nothing but a heading. -/
theorem readAll_of_parse_heading {feature : Feature}
    (hb : ∃ t, (tokens b).find? (fun t => !t.kind.isTrivia) = some t ∧
      (t.kind = .tag ∨ t.kind = .scenario))
    (h : parse ("Feature: X\n" ++ b) = .ok ⟨[feature]⟩) :
    ∃ e, e.kind = .eof ∧ Entry.readAll (skipTrivia (⟨b.toList, 2⟩ : Cursor).tokens) =
      .ok (feature.scenarios, [e]) := by
  obtain ⟨_, e, hset, hread, he⟩ := exists_read_end_of_parse h
  cases hset
  have hclosed : (Cursor.ofString "Feature: X\n").Closed :=
    closed_of_getLast? (by decide) (by rw [tokens_heading]; rfl)
  have hhead : Feature.readHead (tokens "Feature: X\n") =
      .ok (⟨"X", 1, [], [], none, []⟩, [⟨.eof, "", 2⟩]) := by decide +kernel
  have hlines : ClosedLines (tokens "Feature: X\n").dropLast := hclosed.newline
  rw [tokens_append hclosed] at hread
  rw [tokens_heading] at hlines hread hhead
  exact ⟨e, he, Feature.readAll_of_read_append hlines rfl hhead (beforeEntry_of_find? 1 hb) hread⟩

/-- **Documents are modular in their entries**: where a text that is a document ends with a closed
line, the entries of another document may follow. They are read as they were before, on later
lines, and nothing else changes. -/
theorem parse_append {feature other : Feature} (ha : parse a = .ok ⟨[feature]⟩)
    (hend : a.toList.getLast? = some '\n')
    (hlast : (tokens a).dropLast.getLast?.map Token.kind = some .newline)
    (hb : ∃ t, (tokens b).find? (fun t => !t.kind.isTrivia) = some t ∧
      (t.kind = .tag ∨ t.kind = .scenario))
    (hother : parse ("Feature: X\n" ++ b) = .ok ⟨[other]⟩) :
    parse (a ++ b) = .ok ⟨[{ feature with
      scenarios := feature.scenarios ++
        other.scenarios.map (Entry.mapLine (· + (a.toList.count '\n' - 1))) }]⟩ := by
  have hclosed := closed_of_getLast? hend hlast
  obtain ⟨_, e, hset, hread, he⟩ := exists_read_end_of_parse ha
  cases hset
  obtain ⟨e', he', hentries⟩ := readAll_of_parse_heading hb hother
  -- the tokens before the end token
  obtain ⟨xs, hxs⟩ := Parsed.suffix_of_eq_ok (Feature.reads_read.rest_suffix (tokens a)) hread
  have hdrop : (tokens a).dropLast = xs := by rw [← hxs, List.dropLast_concat]
  have hlines : ClosedLines xs := hdrop ▸ hclosed.newline
  rw [← hxs] at hread
  -- the entries on later lines
  have hpos : 0 < a.toList.count '\n' := List.count_pos_iff.2 (List.mem_of_getLast? hend)
  have hline := (⟨b.toList, 2⟩ : Cursor).tokens_mapLine (a.toList.count '\n' - 1)
  rw [show 2 + (a.toList.count '\n' - 1) = 1 + a.toList.count '\n' by omega] at hline
  have hmore := Entry.mapsLine_readAll (g := (· + (a.toList.count '\n' - 1))) hentries
  rw [← skipTrivia_map, ← hline] at hmore
  have hall := Feature.read_append hlines he hread (beforeEntry_of_find? _ hb) hmore
  rw [← hdrop, ← tokens_append hclosed] at hall
  exact parse_eq_ok_of_read hall he'

/-- A scenario with a table, after a feature that ends with a step. -/
theorem parse_append_scenario :
    parse ("Feature: f\nScenario: s\nGiven a\n" ++ "\n@t\nScenario: u\nWhen b\n| c |\n") =
      .ok ⟨[⟨"f", 1, [], [], none,
        [.scenario ⟨"s", 2, [], [⟨⟨.step .given, "Given", 3⟩, "a", [], none, 3⟩]⟩,
          .scenario ⟨"u", 6, ["t"], [⟨⟨.step .when, "When", 7⟩, "b", [],
            some ⟨[[⟨"c", 8⟩]]⟩, 7⟩]⟩]⟩]⟩ := by
  have ha : parse "Feature: f\nScenario: s\nGiven a\n" = .ok ⟨[⟨"f", 1, [], [], none,
      [.scenario ⟨"s", 2, [], [⟨⟨.step .given, "Given", 3⟩, "a", [], none, 3⟩]⟩]⟩]⟩ := by
    decide +kernel
  have hb : (tokens "\n@t\nScenario: u\nWhen b\n| c |\n").find? (fun t => !t.kind.isTrivia) =
      some ⟨.tag, "t", 2⟩ := by
    decide +kernel
  have hother : parse ("Feature: X\n" ++ "\n@t\nScenario: u\nWhen b\n| c |\n") =
      .ok ⟨[⟨"X", 1, [], [], none, [.scenario ⟨"u", 4, ["t"],
        [⟨⟨.step .when, "When", 5⟩, "b", [], some ⟨[[⟨"c", 6⟩]]⟩, 5⟩]⟩]⟩]⟩ := by
    decide +kernel
  exact parse_append ha (by decide) (by decide +kernel) ⟨_, hb, Or.inl rfl⟩ hother

end FeatureDoc
