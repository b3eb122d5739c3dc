import BlockMarkup.Proofs.Checked
import BlockMarkup.Proofs.Text.Cut
import BlockMarkup.Span

/-!
# Guarded steps

The definitions of this library are total where a machine is not. A difference
below zero is zero, a cut inside a character gives way to its start, and a line
that is not there has no length. A guarded step refuses all of these, and with
them the faults of checked computations, so a computation in guarded steps that
is accepted has never made use of such a convention.

Each step has one law, which says when it is accepted and with what result. The
loops of a computation are all instances of `loop`, which has a number of rounds
and refuses to go beyond it; `loop_accepted` is the rule for them, with an
invariant, a measure and what the loop is to answer.
-/

namespace BlockMarkup

/-- One more than the largest signed machine word. No text that is held in memory
    has so many bytes. -/
def signedLimit : Nat := Nat.pow 2 63

/-- What fits into a signed word fits into a word. -/
theorem signedLimit_le_wordLimit : signedLimit ≤ wordLimit := by decide

/-- What a guarded step refuses: a fault, a difference below zero, an element
    that is not there, a slice that is out of bounds or divides a character, a
    depth that is no signed word, a bracket that opens no block, or a round too
    many. -/
inductive Violation where
  | fault (cause : Fault)
  | negative
  | absent (index : Nat)
  | divided (start stop : Nat)
  | depth
  | unknownBracket (text : Text)
  | unending
deriving DecidableEq

/-- A computation in guarded steps. -/
abbrev Guarded := Except Violation

namespace Guarded

variable {α β σ : Type}

/-- What follows a value goes on with it. -/
@[simp]
theorem ok_bind (value : α) (next : α → Guarded β) : (Except.ok value >>= next) = next value := rfl

/-- A step that does nothing has its value as the result. -/
@[simp]
theorem pure_eq_ok (value : α) : (pure value : Guarded α) = .ok value := rfl

/-- A checked computation as a guarded one. -/
def ofChecked : Checked α → Guarded α
  | .ok value => .ok value
  | .error cause => .error (.fault cause)

/-- A checked value is a value here too. -/
@[simp]
theorem ofChecked_ok (value : α) : ofChecked (.ok value) = .ok value := rfl

/-- A sequence of checked computations is guarded step by step. -/
theorem ofChecked_bind (first : Checked α) (next : α → Checked β) :
    ofChecked (first >>= next) = (ofChecked first >>= fun value => ofChecked (next value)) := by
  cases first with
  | error cause => rfl
  | ok value => rfl

/-! ## Numbers -/

/-- The sum of two machine words. -/
def add (a b : Nat) : Guarded Nat := ofChecked (addWord a b)

/-- A sum is made without a violation if it fits into a word. -/
theorem add_eq {a b : Nat} (fits : a + b < wordLimit) : add a b = .ok (a + b) := by
  rw [add, addWord_eq_ok_iff.mpr ⟨fits, rfl⟩]
  rfl

/-- The difference of two machine words. -/
def sub (a b : Nat) : Guarded Nat :=
  if b ≤ a then .ok (a - b) else .error .negative

/-- A difference is made without a violation if it is not below zero. -/
theorem sub_eq {a b : Nat} (ordered : b ≤ a) : sub a b = .ok (a - b) :=
  if_pos ordered

/-- The sum of two signed machine words. -/
def addSigned (a b : Int) : Guarded Int :=
  if -signedLimit ≤ a + b ∧ a + b < signedLimit then .ok (a + b) else .error .depth

/-- A sum of signed numbers is made without a violation if it stays between the limits. -/
theorem addSigned_eq {a b : Int} (low : -signedLimit ≤ a + b) (high : a + b < signedLimit) :
    addSigned a b = .ok (a + b) :=
  if_pos ⟨low, high⟩

/-! ## Lists and texts -/

/-- The element at an index. -/
def get (values : List α) (index : Nat) : Guarded α :=
  match values[index]? with
  | some value => .ok value
  | none => .error (.absent index)

/-- A value is looked up without a violation if it is there. -/
theorem get_eq {values : List α} {index : Nat} {value : α} (present : values[index]? = some value) :
    get values index = .ok value := by
  rw [get, present]

/-- The characters of a span. -/
def slice (text : Text) (span : Span) : Guarded Text :=
  match Text.slice? text span.start span.stop with
  | some piece => .ok piece
  | none => .error (.divided span.start span.stop)

/-- A span that is given by the parts of a text is accepted. -/
theorem slice_eq {text front piece back : Text} {span : Span}
    (parted : text = front ++ (piece ++ back)) (start : span.start = Text.size front)
    (stop : span.stop = Text.size front + Text.size piece) : slice text span = .ok piece := by
  have found : Text.slice? text span.start span.stop = some piece :=
    (Text.slice?_eq_some_iff _ _ _ _).mpr ⟨front, back, parted, start.symm, by rw [stop, start]⟩
  rw [slice, found]

/-- Keeps what the step finds for the elements of a list, in order. -/
def filterMap (step : α → Guarded (Option β)) : List α → Guarded (List β)
  | [] => .ok []
  | value :: rest => do
    let found ← step value
    let more ← filterMap step rest
    return found.toList ++ more

/-- Guarded steps that are accepted as checked ones are keep the same. -/
theorem filterMap_eq {step : α → Guarded (Option β)} {checked : α → Checked (Option β)}
    {values : List α} (same : ∀ value ∈ values, step value = ofChecked (checked value)) :
    filterMap step values = ofChecked (Checked.filterMap checked values) := by
  induction values with
  | nil => rfl
  | cons value rest hypothesis =>
    have later := hypothesis fun other member => same other (List.mem_cons_of_mem value member)
    rw [filterMap, Checked.filterMap, same value List.mem_cons_self, later]
    cases checked value with
    | error cause => rfl
    | ok found =>
      cases Checked.filterMap checked rest with
      | error cause => rfl
      | ok more => rfl

/-! ## Ranges -/

/-- The range between two positions, which must be in order. -/
def between (start stop : Position) : Guarded Range := ofChecked (Range.between start stop)

/-- A range is made without a violation if its ends are in order. -/
theorem between_eq {start stop : Position} (ordered : start ≤ stop) :
    between start stop = .ok ⟨start, stop⟩ := by
  rw [between, Range.between_eq_ok_iff.mpr ⟨ordered, rfl⟩]
  rfl

/-- The range of a span on a line. -/
def onLine (line : Nat) (span : Span) : Guarded Range :=
  ofChecked (Range.onLine line span.start span.stop)

/-- A span on a line becomes a range without a violation. -/
theorem onLine_eq {line start length : Nat} {span : Span} (sized : span = .ofLength start length) :
    onLine line span = .ok (Range.ofLength line start length) := by
  rw [onLine, sized, Span.ofLength, Range.onLine_ofLength]
  rfl

/-! ## Loops -/

/-- How a loop goes on from a state: with another one, or not at all. -/
inductive Next (σ β : Type) where
  | goesOn (state : σ)
  | ends (result : β)

/-- Repeats the body for at most the given number of rounds. -/
def loop (body : σ → Guarded (Next σ β)) : Nat → σ → Guarded β
  | 0, _ => .error .unending
  | rounds + 1, state => do
    match ← body state with
    | .ends result => return result
    | .goesOn next => loop body rounds next

/-- A loop answers what its body keeps the answer to, if no round is refused and
    each has a smaller measure than the one before. -/
theorem loop_accepted {body : σ → Guarded (Next σ β)} (invariant : σ → Prop) (measure : σ → Nat)
    (answers : σ → β → Prop)
    (round : ∀ state, invariant state →
      (∃ result, body state = .ok (.ends result) ∧ answers state result) ∨
      (∃ next, body state = .ok (.goesOn next) ∧ measure next < measure state ∧ invariant next ∧
        ∀ result, answers next result → answers state result))
    {rounds : Nat} {state : σ} (enough : measure state < rounds) (holds : invariant state) :
    ∃ result, loop body rounds state = .ok result ∧ answers state result := by
  induction rounds generalizing state with
  | zero => exact absurd enough (Nat.not_lt_zero _)
  | succ rounds hypothesis =>
    rcases round state holds with ⟨result, ended, answered⟩ | ⟨next, continued, smaller, kept, back⟩
    · refine ⟨result, ?_, answered⟩
      rw [loop, ended]
      rfl
    · obtain ⟨result, looped, answered⟩ := hypothesis (by omega) kept
      refine ⟨result, ?_, back result answered⟩
      rw [loop, continued]
      exact looped

/-- The rule for a loop whose answer is a function of the state. -/
theorem loop_eq {body : σ → Guarded (Next σ β)} (invariant : σ → Prop) (measure : σ → Nat)
    (answer : σ → β)
    (round : ∀ state, invariant state → body state = .ok (.ends (answer state)) ∨
      (∃ next, body state = .ok (.goesOn next) ∧ measure next < measure state ∧ invariant next ∧
        answer next = answer state))
    {rounds : Nat} {state : σ} (enough : measure state < rounds) (holds : invariant state) :
    loop body rounds state = .ok (answer state) := by
  have looped : ∃ result, loop body rounds state = .ok result ∧ answer state = result := by
    apply loop_accepted invariant measure (fun state result => answer state = result) _ enough holds
    intro state holds
    rcases round state holds with ended | ⟨next, continued, smaller, kept, same⟩
    · exact Or.inl ⟨answer state, ended, rfl⟩
    · refine Or.inr ⟨next, continued, smaller, kept, ?_⟩
      intro result answered
      rw [← same, answered]
  obtain ⟨result, accepted, rfl⟩ := looped
  exact accepted

end Guarded

end BlockMarkup
