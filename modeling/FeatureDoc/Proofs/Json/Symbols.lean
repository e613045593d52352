import FeatureDoc.Json.Basic

/-!
# JSON values as sequences of symbols

A JSON text is made of brackets, commas, colons and values without parts. A value has one sequence
of such symbols, and a machine reads it back: its state is what has to come next, and a stack of
the arrays and objects that are open.

* `Json.symbols` is the sequence of a value, `Json.State.step` is a step of the machine.
* `Json.State.run_symbols` says that a run over the symbols of a value reads that value;
  `Json.State.symbols_run` says that a state has read its own symbols and nothing else.
* `Json.ofSymbols?_eq_some_iff` is the main statement: the machine reads a value from its symbols
  only.
-/

namespace FeatureDoc.Json

/-- To prove a statement of all values is to prove it of a value with parts from its parts. -/
theorem induct {motive : Json → Prop} (null : motive .null) (number : ∀ n, motive (.number n))
    (string : ∀ s, motive (.string s))
    (array : ∀ xs, (∀ x ∈ xs, motive x) → motive (.array xs))
    (object : ∀ ms, (∀ m ∈ ms, motive m.2) → motive (.object ms)) (j : Json) : motive j :=
  @Json.rec motive (fun xs => ∀ x ∈ xs, motive x) (fun ms => ∀ m ∈ ms, motive m.2)
    (fun m => motive m.2) null number string array object nofun
    (fun _ _ hx hxs => List.forall_mem_cons.2 ⟨hx, hxs⟩) nofun
    (fun _ _ hm hms => List.forall_mem_cons.2 ⟨hm, hms⟩) (fun _ _ h => h) j

/-! ## Symbols -/

/-- The symbols of JSON texts. -/
inductive Symbol where
  | openArray
  | closeArray
  | openObject
  | closeObject
  | comma
  | colon
  | null
  | number (n : Nat)
  | string (s : String)
  deriving DecidableEq, Repr

mutual

/-- The symbols of a value. -/
def symbols : Json → List Symbol
  | .null => [.null]
  | .number n => [.number n]
  | .string s => [.string s]
  | .array [] => [.openArray, .closeArray]
  | .array (x :: xs) => .openArray :: symbols x ++ itemSymbols xs ++ [.closeArray]
  | .object [] => [.openObject, .closeObject]
  | .object (m :: ms) => .openObject :: memberSymbols m ++ membersSymbols ms ++ [.closeObject]

/-- The symbols of the items of an array after the first. -/
def itemSymbols : List Json → List Symbol
  | [] => []
  | x :: xs => .comma :: symbols x ++ itemSymbols xs

/-- The symbols of a member of an object. -/
def memberSymbols : String × Json → List Symbol
  | (name, value) => .string name :: .colon :: symbols value

/-- The symbols of the members of an object after the first. -/
def membersSymbols : List (String × Json) → List Symbol
  | [] => []
  | m :: ms => .comma :: memberSymbols m ++ membersSymbols ms

end

/-- No value starts with the end of an array. -/
theorem exists_symbols_eq_cons (j : Json) : ∃ t ts, symbols j = t :: ts ∧ t ≠ .closeArray := by
  cases j with
  | null => simp [symbols]
  | number n => simp [symbols]
  | string s => simp [symbols]
  | array xs => cases xs <;> simp [symbols]
  | object ms => cases ms <;> simp [symbols]

/-! ## The machine -/

/-- What is open around the place that is read. -/
inductive Frame where
  /-- An array, behind these items. -/
  | items (before : List Json)
  /-- An object, behind these members and a name. -/
  | member (before : List (String × Json)) (name : String)

/-- What has been read last, or what has to come next. -/
inductive Focus where
  /-- A value has to come. -/
  | value
  /-- An array was opened: its first item has to come, or its end. -/
  | opened
  /-- An object was opened: its first name has to come, or its end. -/
  | openedObject
  /-- A member has to come, behind these. -/
  | member (before : List (String × Json))
  /-- A colon has to come, behind a name. -/
  | colon (before : List (String × Json)) (name : String)
  /-- A value was read. -/
  | read (j : Json)

/-- A state of the machine. -/
structure State where
  /-- What has been read last, or what has to come next. -/
  focus : Focus
  /-- What is open, from the inside. -/
  frames : List Frame

namespace State

/-- The start: a value has to come, and nothing is open. -/
def start : State := ⟨.value, []⟩

/-- The first symbol of a value. -/
def begin (frames : List Frame) : Symbol → Option State
  | .null => some ⟨.read .null, frames⟩
  | .number n => some ⟨.read (.number n), frames⟩
  | .string s => some ⟨.read (.string s), frames⟩
  | .openArray => some ⟨.opened, frames⟩
  | .openObject => some ⟨.openedObject, frames⟩
  | _ => none

/-- Read a symbol. -/
def step : State → Symbol → Option State
  | ⟨.value, k⟩, t => begin k t
  | ⟨.opened, k⟩, .closeArray => some ⟨.read (.array []), k⟩
  | ⟨.opened, k⟩, t => begin (.items [] :: k) t
  | ⟨.openedObject, k⟩, .closeObject => some ⟨.read (.object []), k⟩
  | ⟨.openedObject, k⟩, .string name => some ⟨.colon [] name, k⟩
  | ⟨.member ms, k⟩, .string name => some ⟨.colon ms name, k⟩
  | ⟨.colon ms name, k⟩, .colon => some ⟨.value, .member ms name :: k⟩
  | ⟨.read j, .items xs :: k⟩, .comma => some ⟨.value, .items (xs ++ [j]) :: k⟩
  | ⟨.read j, .items xs :: k⟩, .closeArray => some ⟨.read (.array (xs ++ [j])), k⟩
  | ⟨.read j, .member ms name :: k⟩, .comma => some ⟨.member (ms ++ [(name, j)]), k⟩
  | ⟨.read j, .member ms name :: k⟩, .closeObject =>
    some ⟨.read (.object (ms ++ [(name, j)])), k⟩
  | _, _ => none

/-- Read symbols one after another. -/
def run (s : State) (ts : List Symbol) : Option State := ts.foldlM step s

@[simp]
theorem run_nil (s : State) : s.run [] = some s := rfl

@[simp]
theorem run_cons (s : State) (t : Symbol) (ts : List Symbol) :
    s.run (t :: ts) = (s.step t).bind fun s' => s'.run ts := by
  simp [run]

end State

/-- The value that symbols stand for. -/
def ofSymbols? (ts : List Symbol) : Option Json :=
  match State.start.run ts with
  | some ⟨.read j, []⟩ => some j
  | _ => none

/-! ## The symbols of a value are read as that value -/

namespace State

/-- The machine reads a value, whatever is open. -/
def Reads (j : Json) : Prop :=
  ∀ k ts, run ⟨.value, k⟩ (symbols j ++ ts) = run ⟨.read j, k⟩ ts

theorem step_opened {t : Symbol} (ht : t ≠ .closeArray) (k : List Frame) :
    step ⟨.opened, k⟩ t = step ⟨.value, .items [] :: k⟩ t := by
  cases t <;> first | rfl | exact absurd rfl ht

/-- The first item of an array is read as any other. -/
theorem Reads.opened {j : Json} (h : Reads j) (k : List Frame) (ts : List Symbol) :
    run ⟨.opened, k⟩ (symbols j ++ ts) = run ⟨.read j, .items [] :: k⟩ ts := by
  obtain ⟨t, front, hsymbols, ht⟩ := exists_symbols_eq_cons j
  rw [← h, hsymbols, List.cons_append, run_cons, run_cons, step_opened ht]

theorem run_itemSymbols {xs : List Json} (h : ∀ x ∈ xs, Reads x) (before : List Json) (j : Json)
    (k : List Frame) (ts : List Symbol) :
    run ⟨.read j, .items before :: k⟩ (itemSymbols xs ++ .closeArray :: ts) =
      run ⟨.read (.array (before ++ j :: xs)), k⟩ ts := by
  induction xs generalizing before j with
  | nil => simp [itemSymbols, step]
  | cons x xs ih =>
    obtain ⟨hx, hxs⟩ := List.forall_mem_cons.1 h
    simp [itemSymbols, step, hx _ _, ih hxs]

theorem run_memberSymbols {m : String × Json} (h : Reads m.2) (before : List (String × Json))
    (k : List Frame) (ts : List Symbol) :
    run ⟨.member before, k⟩ (memberSymbols m ++ ts) =
      run ⟨.read m.2, .member before m.1 :: k⟩ ts := by
  obtain ⟨name, j⟩ := m
  simp [memberSymbols, step, h _ _]

theorem run_membersSymbols {ms : List (String × Json)} (h : ∀ m ∈ ms, Reads m.2)
    (before : List (String × Json)) (name : String) (j : Json) (k : List Frame)
    (ts : List Symbol) :
    run ⟨.read j, .member before name :: k⟩ (membersSymbols ms ++ .closeObject :: ts) =
      run ⟨.read (.object (before ++ (name, j) :: ms)), k⟩ ts := by
  induction ms generalizing before name j with
  | nil => simp [membersSymbols, step]
  | cons m ms ih =>
    obtain ⟨hm, hms⟩ := List.forall_mem_cons.1 h
    simp [membersSymbols, step, run_memberSymbols hm, ih hms]

/-- A run over the symbols of a value reads that value. -/
theorem run_symbols (j : Json) : Reads j := by
  intro k ts
  induction j using induct generalizing k ts with
  | null => rfl
  | number n => rfl
  | string s => rfl
  | array xs ih =>
    cases xs with
    | nil => rfl
    | cons x xs =>
      obtain ⟨hx, hxs⟩ := List.forall_mem_cons.1 ih
      simp [symbols, step, begin, Reads.opened hx, run_itemSymbols hxs]
  | object ms ih =>
    cases ms with
    | nil => rfl
    | cons m ms =>
      obtain ⟨hm, hms⟩ := List.forall_mem_cons.1 ih
      have hfirst (rest : List Symbol) : run ⟨.openedObject, k⟩ (memberSymbols m ++ rest) =
          run ⟨.read m.2, .member [] m.1 :: k⟩ rest := by
        rw [← run_memberSymbols hm]
        cases m
        rfl
      simp [symbols, step, begin, hfirst, run_membersSymbols hms]

end State

/-! ## A value is read from its symbols only -/

theorem itemSymbols_concat (xs : List Json) (j : Json) :
    itemSymbols (xs ++ [j]) = itemSymbols xs ++ .comma :: symbols j := by
  induction xs with
  | nil => simp [itemSymbols]
  | cons x xs ih => simp [itemSymbols, ih]

theorem membersSymbols_concat (ms : List (String × Json)) (m : String × Json) :
    membersSymbols (ms ++ [m]) = membersSymbols ms ++ .comma :: memberSymbols m := by
  induction ms with
  | nil => simp [membersSymbols]
  | cons m' ms ih => simp [membersSymbols, ih]

/-- The symbols of an open array before the item that has to come. -/
def symbolsBefore : List Json → List Symbol
  | [] => [.openArray]
  | x :: xs => .openArray :: symbols x ++ itemSymbols xs ++ [.comma]

/-- The symbols of an open object before the member that has to come. -/
def memberSymbolsBefore : List (String × Json) → List Symbol
  | [] => [.openObject]
  | m :: ms => .openObject :: memberSymbols m ++ membersSymbols ms ++ [.comma]

@[simp]
theorem symbolsBefore_nil : symbolsBefore [] = [.openArray] := rfl

@[simp]
theorem memberSymbolsBefore_nil : memberSymbolsBefore [] = [.openObject] := rfl

theorem symbolsBefore_concat (xs : List Json) (j : Json) :
    symbolsBefore (xs ++ [j]) = symbolsBefore xs ++ symbols j ++ [.comma] := by
  cases xs <;> simp [symbolsBefore, itemSymbols, itemSymbols_concat]

theorem symbols_array_concat (xs : List Json) (j : Json) :
    symbols (.array (xs ++ [j])) = symbolsBefore xs ++ symbols j ++ [.closeArray] := by
  cases xs <;> simp [symbols, symbolsBefore, itemSymbols, itemSymbols_concat]

theorem memberSymbolsBefore_concat (ms : List (String × Json)) (m : String × Json) :
    memberSymbolsBefore (ms ++ [m]) = memberSymbolsBefore ms ++ memberSymbols m ++ [.comma] := by
  cases ms <;> simp [memberSymbolsBefore, membersSymbols, membersSymbols_concat]

theorem symbols_object_concat (ms : List (String × Json)) (m : String × Json) :
    symbols (.object (ms ++ [m])) =
      memberSymbolsBefore ms ++ memberSymbols m ++ [.closeObject] := by
  cases ms <;> simp [symbols, memberSymbolsBefore, membersSymbols, membersSymbols_concat]

/-- The symbols that a part that is open has read. -/
def Frame.symbols : Frame → List Symbol
  | .items before => symbolsBefore before
  | .member before name => memberSymbolsBefore before ++ [.string name, .colon]

/-- The symbols that were read within the innermost part that is open. -/
def Focus.symbols : Focus → List Symbol
  | .value => []
  | .opened => [.openArray]
  | .openedObject => [.openObject]
  | .member before => memberSymbolsBefore before
  | .colon before name => memberSymbolsBefore before ++ [.string name]
  | .read j => j.symbols

namespace State

/-- The symbols that a state has read. -/
def symbols (s : State) : List Symbol :=
  s.frames.reverse.flatMap Frame.symbols ++ s.focus.symbols

theorem symbols_begin {k : List Frame} {t : Symbol} {s : State} (h : begin k t = some s) :
    s.symbols = symbols ⟨.value, k⟩ ++ [t] := by
  cases t <;> cases h <;> simp [symbols, Focus.symbols, Json.symbols]

/-- What a step adds to the symbols that were read is the symbol that it reads. -/
theorem symbols_step {s s' : State} {t : Symbol} (h : s.step t = some s') :
    s'.symbols = s.symbols ++ [t] := by
  obtain ⟨focus, k⟩ := s
  cases focus with
  | value => exact symbols_begin h
  | opened =>
    by_cases ht : t = .closeArray
    · subst ht
      cases h
      simp [symbols, Focus.symbols, Json.symbols]
    · rw [step_opened ht] at h
      rw [symbols_begin h]
      simp [symbols, Focus.symbols, Frame.symbols]
  | openedObject => cases t <;> cases h <;> simp [symbols, Focus.symbols, Json.symbols]
  | member before =>
    cases t <;> cases h
    simp [symbols, Focus.symbols]
  | colon before name =>
    cases t <;> cases h
    simp [symbols, Focus.symbols, Frame.symbols]
  | read j =>
    cases k with
    | nil => cases t <;> cases h
    | cons frame k =>
      cases frame with
      | items before =>
        cases t <;> cases h <;>
          simp [symbols, Focus.symbols, Frame.symbols, symbolsBefore_concat, symbols_array_concat]
      | member before name =>
        cases t <;> cases h <;>
          simp [symbols, Focus.symbols, Frame.symbols, memberSymbolsBefore_concat,
            symbols_object_concat, memberSymbols]

/-- A state has read its own symbols. -/
theorem symbols_run {s s' : State} {ts : List Symbol} (h : s.run ts = some s') :
    s'.symbols = s.symbols ++ ts := by
  induction ts generalizing s with
  | nil =>
    cases h
    simp
  | cons t ts ih =>
    rw [run_cons, Option.bind_eq_some_iff] at h
    obtain ⟨middle, hstep, hrun⟩ := h
    rw [ih hrun, symbols_step hstep, List.append_assoc, List.singleton_append]

end State

/-- **A sequence of symbols is read as a value if and only if it is that of the value.** -/
theorem ofSymbols?_eq_some_iff {ts : List Symbol} {j : Json} :
    ofSymbols? ts = some j ↔ ts = symbols j := by
  constructor
  · intro h
    unfold ofSymbols? at h
    split at h
    · next j' hrun =>
      cases h
      simpa [State.symbols, State.start, Focus.symbols] using (State.symbols_run hrun).symm
    · cases h
  · rintro rfl
    have hrun := State.run_symbols j [] []
    rw [List.append_nil] at hrun
    rw [ofSymbols?, State.start, hrun, State.run_nil]

end FeatureDoc.Json
