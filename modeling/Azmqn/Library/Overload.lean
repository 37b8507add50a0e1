import Mathlib.Tactic

/-!
# Overload resolution for one argument passed by reference

The part of C++'s rules that decides between functions of one parameter: which
candidates an argument expression can be passed to, which of two conversions is
better, and that the call goes to the candidate better than all others, if there
is one. Between equal conversions a function goes before a template.

What else the types involved convert to makes no difference to a call that
resolves without such a conversion.
-/

namespace Overload

inductive Category
  | lvalue
  | rvalue
  deriving DecidableEq, Repr

/-- An argument expression: its type, constness and value category. -/
structure Argument (κ : Type) where
  type : κ
  isConst : Bool
  category : Category
  deriving DecidableEq, Repr

inductive Parameter (κ : Type)
  /-- `K const&` -/
  | constRef (type : κ)
  /-- `K&&` -/
  | rvalueRef (type : κ)
  /-- `U&&` of a template over `U` -/
  | forwarding
  /-- `X<U> const&` of a template over `U`, given by the types of this form -/
  | constRefTemplate (accepts : κ → Bool)

namespace Parameter

variable {κ : Type}

def isTemplate : Parameter κ → Bool
  | constRef _ => false
  | rvalueRef _ => false
  | forwarding => true
  | constRefTemplate _ => true

end Parameter

/-- An implicit conversion sequence from an argument to a parameter. -/
inductive Conversion
  /-- a reference bound to the argument itself -/
  | binding (toRvalueRef addsConst : Bool)
  /-- a temporary made from the argument -/
  | user
  deriving DecidableEq, Repr

namespace Conversion

def isUser : Conversion → Bool
  | binding _ _ => false
  | user => true

/-- Which of two sequences is better: a binding before a conversion, then a reference to
rvalues, then the type that is less const. Two conversions are not ordered. -/
def better : Conversion → Conversion → Bool
  | binding _ _, user => true
  | binding r k, binding r' k' => (r && !r') || (r == r' && !k && k')
  | user, _ => false

end Conversion

variable {ω κ : Type} [DecidableEq κ]

/-- How an argument is passed to a parameter, if it can be. -/
def convert (converts : κ → κ → Bool) (a : Argument κ) : Parameter κ → Option Conversion
  | .constRef t =>
    if a.type = t then some (.binding false !a.isConst)
    else if converts a.type t then some .user else none
  | .rvalueRef t =>
    if a.type = t then
      if a.category = .rvalue && !a.isConst then some (.binding true false) else none
    else if converts a.type t then some .user else none
  | .forwarding => some (.binding (a.category = .rvalue) false)
  | .constRefTemplate accepts =>
    if accepts a.type then some (.binding false !a.isConst) else none

/-- A candidate that the argument can be passed to. -/
structure Viable (ω : Type) where
  function : ω
  conversion : Conversion
  isTemplate : Bool
  deriving DecidableEq, Repr

def Viable.beats (c d : Viable ω) : Bool :=
  c.conversion.better d.conversion ||
    (!d.conversion.better c.conversion && !c.isTemplate && d.isTemplate)

def viable (converts : κ → κ → Bool) (a : Argument κ) (candidates : List (ω × Parameter κ)) :
    List (Viable ω) :=
  candidates.filterMap fun c =>
    (convert converts a c.2).map fun conversion => ⟨c.1, conversion, c.2.isTemplate⟩

/-- `c` is better than every other candidate of `cs`. -/
def isBest [DecidableEq ω] (cs : List (Viable ω)) (c : Viable ω) : Bool :=
  cs.all fun d => d = c || c.beats d

/-- The function that a call goes to; `none` where there is none or the call is ambiguous. -/
def resolve [DecidableEq ω] (converts : κ → κ → Bool) (candidates : List (ω × Parameter κ))
    (a : Argument κ) : Option ω :=
  match (viable converts a candidates).filter (isBest (viable converts a candidates)) with
  | [c] => some c.function
  | _ => none

section Conversions

variable {converts : κ → κ → Bool} {a : Argument κ} {candidates : List (ω × Parameter κ)}

/-- Without conversions between types, what is left are the bindings. -/
theorem convert_filter (converts : κ → κ → Bool) (a : Argument κ) (p : Parameter κ) :
    (convert converts a p).filter (fun c => !c.isUser) = convert (fun _ _ => false) a p := by
  cases p with
  | constRef t =>
    by_cases ht : a.type = t
    · simp [convert, ht, Conversion.isUser]
    · cases hc : converts a.type t <;> simp [convert, ht, hc, Conversion.isUser]
  | rvalueRef t =>
    by_cases ht : a.type = t
    · cases hr : (decide (a.category = .rvalue) && !a.isConst) <;>
        simp [convert, ht, hr, Conversion.isUser]
    · cases hc : converts a.type t <;> simp [convert, ht, hc, Conversion.isUser]
  | forwarding => rfl
  | constRefTemplate accepts =>
    cases hc : accepts a.type <;> simp [convert, hc, Conversion.isUser]

theorem viable_filter (converts : κ → κ → Bool) (a : Argument κ)
    (candidates : List (ω × Parameter κ)) :
    (viable converts a candidates).filter (fun c => !c.conversion.isUser) =
      viable (fun _ _ => false) a candidates := by
  unfold viable
  rw [List.filter_filterMap]
  apply List.filterMap_congr
  intro c _
  rw [← convert_filter converts a c.2]
  cases convert converts a c.2 with
  | none => rfl
  | some conversion => cases conversion <;> rfl

theorem beats_user {c d : Viable ω} (hc : c.conversion.isUser = false)
    (hd : d.conversion.isUser = true) : c.beats d = true ∧ d.beats c = false := by
  rcases c with ⟨f, _ | _, t⟩
  · rcases d with ⟨g, _ | _, u⟩
    · cases hd
    · exact ⟨rfl, rfl⟩
  · cases hc

variable [DecidableEq ω]

/-- A candidate reached by a conversion is not best beside one reached by a binding. -/
theorem isBest_user {cs : List (Viable ω)} {c d : Viable ω} (hmem : c ∈ cs)
    (hc : c.conversion.isUser = false) (hd : d.conversion.isUser = true) :
    isBest cs d = false := by
  have hne : c ≠ d := by
    rintro rfl
    rw [hc] at hd
    cases hd
  apply List.all_eq_false.mpr
  exact ⟨c, hmem, by simp [hne, (beats_user hc hd).2]⟩

/-- A binding is best among all if it is best among the bindings. -/
theorem isBest_filter {cs : List (Viable ω)} {c : Viable ω} (hc : c.conversion.isUser = false) :
    isBest (cs.filter fun d => !d.conversion.isUser) c = isBest cs c := by
  unfold isBest
  rw [List.all_filter]
  apply List.all_congr rfl
  intro d
  cases hd : d.conversion.isUser with
  | false => rfl
  | true => simp [(beats_user hc hd).1]

/-- A call that resolves without conversions resolves to the same function with any. -/
theorem resolve_of_binding {f : ω} (h : resolve (fun _ _ => false) candidates a = some f)
    (converts : κ → κ → Bool) : resolve converts candidates a = some f := by
  unfold resolve at h ⊢
  rw [← viable_filter converts a candidates] at h
  generalize viable converts a candidates = cs at h ⊢
  have hbest : cs.filter (isBest cs) = (cs.filter fun c => !c.conversion.isUser).filter
      (isBest (cs.filter fun c => !c.conversion.isUser)) := by
    rw [List.filter_filter]
    apply List.filter_congr
    intro c hmem
    cases hc : c.conversion.isUser with
    | false => simp [isBest_filter hc]
    | true =>
      cases hbs : cs.filter fun c => !c.conversion.isUser with
      | nil =>
        rw [hbs] at h
        cases h
      | cons b bs =>
        have hb : b ∈ cs.filter fun c => !c.conversion.isUser := by
          rw [hbs]
          exact List.mem_cons_self
        rw [List.mem_filter] at hb
        simp [isBest_user hb.1 (by simpa using hb.2) hc]
  rw [hbest]
  exact h

end Conversions

end Overload
