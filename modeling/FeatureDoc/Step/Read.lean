import FeatureDoc.Feature.Basic
import FeatureDoc.Step.Text
import FeatureDoc.Table.Read

/-!
# Reading steps

A step is its keyword, the rest of the line, and below it an optional table and an optional block
of text. Steps follow one another with only line ends and comments between them.
-/

namespace FeatureDoc

namespace Step

/-- Read the table below a step line, if there is one. -/
def readTable? (ts : List Token) : Parsed (Option Table) :=
  if (peek ts).isCell then (Table.read ts).andThen fun table rest => .ok (some table, rest)
  else .ok (none, ts)

/-- Read the block of text below a step, if there is one. -/
def readBlock (s : StepText) (ts : List Token) : StepText × List Token :=
  if (peek ts).kind = .docString then (s.putBlock (peek ts).literal, ts.tail) else (s, ts)

/-- Read what follows the keyword of a step. -/
def read (keyword : Token) (ts : List Token) : Parsed Step :=
  (StepText.empty.readLine ts).andThen fun body rest =>
  (readTable? (skipNewline rest)).andThen fun table rest =>
    let (body, rest) := readBlock body.trim rest
    .ok (⟨keyword, String.ofList body.text, body.data, table, keyword.line⟩, rest)

theorem rest_readTable?_suffix (ts : List Token) : (readTable? ts).rest <:+ ts := by
  unfold readTable?
  split
  · exact Parsed.rest_andThen_suffix (Table.rest_read_suffix ts) fun _ _ => List.suffix_rfl
  · exact List.suffix_rfl

theorem readBlock_suffix (s : StepText) (ts : List Token) : (readBlock s ts).2 <:+ ts := by
  unfold readBlock
  split
  · exact List.tail_suffix ts
  · exact List.suffix_rfl

theorem rest_read_suffix (keyword : Token) (ts : List Token) : (read keyword ts).rest <:+ ts :=
  Parsed.rest_andThen_suffix (StepText.rest_readLine_suffix _ ts) fun _ mid =>
    Parsed.rest_andThen_suffix ((rest_readTable?_suffix _).trans (skipNewline_suffix mid))
      fun _ rest => readBlock_suffix _ rest

/-- Read steps as long as a step keyword comes next. -/
def readAll : List Token → Parsed (List Step)
  | [] => .ok ([], [])
  | t :: ts =>
    if t.kind.isStepKeyword then
      match _h : read t ts with
      | .error failure => .error failure
      | .ok (step, rest) =>
        (readAll (skipTrivia rest)).andThen fun steps rest => .ok (step :: steps, rest)
    else .ok ([], t :: ts)
termination_by ts => ts.length
decreasing_by
  have := rest_read_suffix t ts
  rw [_h] at this
  exact Nat.lt_succ_of_le ((skipTrivia_suffix rest).trans this).length_le

theorem rest_readAll_suffix (ts : List Token) : (readAll ts).rest <:+ ts := by
  fun_induction readAll ts with
  | case1 => exact List.suffix_rfl
  | case2 t ts hk failure h =>
    have hstep := rest_read_suffix t ts
    rw [h] at hstep
    exact hstep.trans (List.suffix_cons t ts)
  | case3 t ts hk step rest h ih =>
    have hstep := rest_read_suffix t ts
    rw [h] at hstep
    have hrest := hstep.trans (List.suffix_cons t ts)
    exact Parsed.rest_andThen_suffix (ih.trans ((skipTrivia_suffix rest).trans hrest))
      fun _ _ => List.suffix_rfl
  | case4 => exact List.suffix_rfl

/-- Read one or more steps. -/
def readBlockOf (owner : StepOwner) (ts : List Token) : Parsed (List Step) :=
  let ts := skipTrivia ts
  if (peek ts).kind.isStepKeyword then readAll ts
  else .error ⟨.noSteps owner (peek ts).kind (peek ts).line, ts⟩

theorem rest_readBlockOf_suffix (owner : StepOwner) (ts : List Token) :
    (readBlockOf owner ts).rest <:+ ts := by
  dsimp only [readBlockOf]
  split
  · exact (rest_readAll_suffix _).trans (skipTrivia_suffix ts)
  · exact skipTrivia_suffix ts

end Step

end FeatureDoc
