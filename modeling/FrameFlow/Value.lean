import FrameFlow.Const

/-!
# Abstract values

What the analysis knows about one value: only its width, an exact constant, an
object of a known class, or something a host produced.  Two values of one
width have a join.  It keeps what they agree on: equal values, or one constant
carried in two ways; anything else is unresolved.
-/

namespace FrameFlow

inductive HostValue where
  | const (value : Const)
  | object (className : String) (handle : UInt64)
  deriving DecidableEq, Repr

namespace HostValue

def width : HostValue → Width
  | const c => c.width
  | object _ _ => .one

def text : HostValue → String
  | const c => c.text
  | object name handle => s!"{name}@{String.ofList (Text.hexDigits handle.toNat)}"

end HostValue

inductive Value where
  | unresolved (width : Width)
  | const (value : Const)
  | ref (className : String)
  | sim (value : HostValue)
  deriving DecidableEq, Repr

namespace Value

def width : Value → Width
  | unresolved w => w
  | const c => c.width
  | ref _ => .one
  | sim h => h.width

/-- Host constants are ordinary constants; host objects stay with the host. -/
def ofHost : HostValue → Value
  | .const c => const c
  | .object name handle => sim (.object name handle)

def isUnresolved : Value → Bool
  | unresolved _ => true
  | const _ | ref _ | sim _ => false

/-- The exact constant, whichever way it is carried. -/
def const? : Value → Option Const
  | const c => some c
  | sim (.const c) => some c
  | unresolved _ | ref _ | sim (.object _ _) => none

def host? : Value → Option HostValue
  | const c => some (.const c)
  | sim h => some h
  | unresolved _ | ref _ => none

def isConcrete (v : Value) : Bool :=
  v.host?.isSome

def text : Value → String
  | unresolved .one => "?"
  | unresolved .two => "??"
  | const c => c.text
  | ref name => s!"<{name}>"
  | sim h => s!"sim({h.text})"

def hostArguments? : List Value → Option (List HostValue)
  | [] => some []
  | v :: vs =>
      match v.host?, hostArguments? vs with
      | some h, some hs => some (h :: hs)
      | _, _ => none

/-! ## Joins -/

def lub (a b : Value) : Value :=
  if a = b then a
  else
    match a.const?, b.const? with
    | some c, some d => if c = d then const c else unresolved a.width
    | _, _ => unresolved a.width

/-- The join is missing exactly for values of different widths. -/
def join? (a b : Value) : Option Value :=
  if a.width = b.width then some (a.lub b) else none

private theorem width_of_const? {v : Value} {c : Const} (h : v.const? = some c) :
    c.width = v.width := by
  match v with
  | const d =>
      cases h
      rfl
  | sim (.const d) =>
      cases h
      rfl
  | unresolved _ => simp [const?] at h
  | ref _ => simp [const?] at h
  | sim (.object _ _) => simp [const?] at h

@[simp] theorem lub_width (a b : Value) : (a.lub b).width = a.width := by
  unfold lub
  split
  · rfl
  · split
    · rename_i c d hc hd
      split
      · exact width_of_const? hc
      · rfl
    · rfl

@[simp] theorem lub_self (a : Value) : a.lub a = a := by
  simp [lub]

/-! ## How often a value can rise -/

/--
The number of times a value can still become less precise.  A constant carried
by the host can first become an ordinary constant.
-/
def climbs : Value → Nat
  | unresolved _ => 0
  | const _ | ref _ | sim (.object _ _) => 1
  | sim (.const _) => 2

private theorem climbs_pos_of_ne {v : Value} (h : v ≠ unresolved v.width) : 0 < v.climbs := by
  match v with
  | unresolved w => exact absurd rfl h
  | const _ => simp [climbs]
  | ref _ => simp [climbs]
  | sim (.object _ _) => simp [climbs]
  | sim (.const _) => simp [climbs]

theorem lub_cases (a b : Value) :
    a.lub b = a ∨ a.lub b = unresolved a.width ∨
      ∃ c, a.const? = some c ∧ a.lub b = const c := by
  unfold lub
  split
  · exact .inl rfl
  · split
    · rename_i c d hc hd
      split
      · exact .inr (.inr ⟨c, hc, rfl⟩)
      · exact .inr (.inl rfl)
    · exact .inr (.inl rfl)

theorem lub_climbs {a b : Value} (h : a.lub b ≠ a) :
    (a.lub b).climbs < a.climbs := by
  rcases lub_cases a b with hsame | htop | ⟨c, hc, hconst⟩
  · exact absurd hsame h
  · rw [htop] at h ⊢
    exact climbs_pos_of_ne (Ne.symm h)
  · rw [hconst] at h ⊢
    match a with
    | const d =>
        cases hc
        exact absurd rfl h
    | sim (.const d) => simp [climbs]
    | unresolved _ => cases hc
    | ref _ => cases hc
    | sim (.object _ _) => cases hc

end Value

end FrameFlow
