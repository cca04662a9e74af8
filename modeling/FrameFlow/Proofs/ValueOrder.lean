import FrameFlow.Value
import Mathlib.Order.Defs.PartialOrder

/-!
# The order of abstract values

A value is below another one when joining it into the other changes nothing.
The order is flat up to one exception: a constant carried by the host lies
below the same constant carried openly, and both lie below the unresolved value
of their width.  The join of two values of one width is their least upper
bound.
-/

namespace FrameFlow.Value

instance : LE Value := ⟨fun a b => b.join? a = some b⟩

theorem le_iff_join {a b : Value} : a ≤ b ↔ b.join? a = some b :=
  Iff.rfl

theorem le_iff_lub {a b : Value} : a ≤ b ↔ a.width = b.width ∧ b.lub a = b := by
  rw [le_iff_join, join?]
  by_cases hw : b.width = a.width
  · simp [hw]
  · simp [hw, Ne.symm hw]

theorem width_eq_of_le {a b : Value} (h : a ≤ b) : a.width = b.width :=
  (le_iff_lub.1 h).1

/-! ## What lies below a value -/

theorem le_unresolved {a : Value} {w : Width} (h : a.width = w) : a ≤ unresolved w := by
  refine le_iff_lub.2 ⟨h, ?_⟩
  unfold lub
  split
  · rfl
  · simp [const?, width]

theorem sim_le_const (c : Const) : sim (.const c) ≤ const c := by
  refine le_iff_lub.2 ⟨rfl, ?_⟩
  simp [lub, const?]

theorem le_cases {a b : Value} (h : a ≤ b) :
    a = b ∨ b = unresolved a.width ∨ ∃ c, a = sim (.const c) ∧ b = const c := by
  obtain ⟨hw, hlub⟩ := le_iff_lub.1 h
  unfold lub at hlub
  split at hlub
  · rename_i heq
    exact .inl heq.symm
  · rename_i hne
    split at hlub
    · rename_i c d hc hd
      split at hlub
      · rename_i hcd
        subst hcd
        match a, hd with
        | const d, hd =>
            cases hd
            exact absurd hlub.symm hne
        | sim (.const d), hd =>
            cases hd
            exact .inr (.inr ⟨_, rfl, hlub.symm⟩)
      · exact .inr (.inl (by rw [hw]; exact hlub.symm))
    · exact .inr (.inl (by rw [hw]; exact hlub.symm))

theorem eq_of_unresolved_le {w : Width} {b : Value} (h : unresolved w ≤ b) :
    b = unresolved w := by
  rcases le_cases h with heq | htop | ⟨c, hsim, _⟩
  · exact heq.symm
  · exact htop
  · cases hsim

private theorem le_const_cases {a : Value} {c : Const} (h : a ≤ const c) :
    a = const c ∨ a = sim (.const c) := by
  rcases le_cases h with heq | htop | ⟨d, hsim, hconst⟩
  · exact .inl heq
  · cases htop
  · cases hconst
    exact .inr hsim

/-! ## A partial order -/

instance : PartialOrder Value where
  le_refl a := le_iff_lub.2 ⟨rfl, lub_self a⟩
  le_trans a b c hab hbc := by
    have hw : a.width = c.width := (width_eq_of_le hab).trans (width_eq_of_le hbc)
    rcases le_cases hbc with rfl | htop | ⟨k, rfl, rfl⟩
    · exact hab
    · rw [htop]
      exact le_unresolved (width_eq_of_le hab)
    · rcases le_cases hab with rfl | htop | ⟨_, _, hconst⟩
      · exact hbc
      · cases htop
      · cases hconst
  le_antisymm a b hab hba := by
    rcases le_cases hab with heq | htop | ⟨c, rfl, rfl⟩
    · exact heq
    · subst htop
      exact eq_of_unresolved_le hba
    · rcases le_const_cases (c := c) hab with hconst | _
      · cases hconst
      · rcases le_cases hba with heq | htop | ⟨_, hsim, _⟩
        · cases heq
        · cases htop
        · cases hsim

theorem le_lub_left (a b : Value) : a ≤ a.lub b := by
  rcases lub_cases a b with hsame | htop | ⟨c, hc, hconst⟩
  · rw [hsame]
  · rw [htop]
    exact le_unresolved rfl
  · rw [hconst]
    match a, hc with
    | const d, hc =>
        cases hc
        exact le_refl _
    | sim (.const d), hc =>
        cases hc
        exact sim_le_const _

theorem le_lub_right {a b : Value} (h : a.width = b.width) : b ≤ a.lub b := by
  unfold lub
  split
  · rename_i heq
    rw [heq]
  · split
    · rename_i c d hc hd
      split
      · rename_i hcd
        subst hcd
        match b, hd with
        | const d, hd =>
            cases hd
            exact le_refl _
        | sim (.const d), hd =>
            cases hd
            exact sim_le_const _
      · exact le_unresolved h.symm
    · exact le_unresolved h.symm

theorem lub_le {a b c : Value} (ha : a ≤ c) (hb : b ≤ c) : a.lub b ≤ c := by
  rcases le_cases ha with rfl | htop | ⟨k, rfl, rfl⟩
  · rw [(le_iff_lub.1 hb).2]
  · rw [htop]
    exact le_unresolved (lub_width a b)
  · rcases le_const_cases hb with rfl | rfl
    · simp [lub, const?]
    · rw [lub_self]
      exact ha

/-! ## Exact knowledge -/

theorem const?_of_le {a b : Value} {c : Const} (h : a ≤ b) (hc : b.const? = some c) :
    a.const? = some c := by
  rcases le_cases h with rfl | htop | ⟨d, rfl, rfl⟩
  · exact hc
  · rw [htop] at hc
    cases hc
  · exact hc

theorem host?_of_le {a b : Value} {v : HostValue} (h : a ≤ b) (hv : b.host? = some v) :
    a.host? = some v := by
  rcases le_cases h with rfl | htop | ⟨d, rfl, rfl⟩
  · exact hv
  · rw [htop] at hv
    cases hv
  · exact hv

theorem const?_of_host? {a : Value} {v : HostValue} (h : a.host? = some v) :
    a.const? = (sim v).const? := by
  match a with
  | const _ =>
      cases h
      rfl
  | sim _ =>
      cases h
      rfl
  | unresolved _ => cases h
  | ref _ => cases h

/-- No constant hides behind the host. -/
def Plain : Value → Prop
  | sim (.const _) => False
  | unresolved _ | const _ | ref _ | sim (.object _ _) => True

def Native : Value → Prop
  | sim _ => False
  | unresolved _ | const _ | ref _ => True

theorem Native.plain {a : Value} (h : a.Native) : a.Plain := by
  cases a with
  | sim v => exact h.elim
  | unresolved _ => trivial
  | const _ => trivial
  | ref _ => trivial

theorem plain_ofHost (v : HostValue) : (ofHost v).Plain := by
  cases v <;> trivial

theorem plain_lub {a b : Value} (ha : a.Plain) : (a.lub b).Plain := by
  rcases lub_cases a b with hsame | htop | ⟨c, _, hconst⟩
  · rw [hsame]
    exact ha
  · rw [htop]
    trivial
  · rw [hconst]
    trivial

end FrameFlow.Value
