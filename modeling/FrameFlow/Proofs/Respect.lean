import FrameFlow.Proofs.FrameOps

/-!
# Relations that instructions respect

An instruction carried out on two related frames gives related frames again,
and it succeeds on the lower one whenever it does on the upper one.  This holds
for every relation between values that folding and class tests respect; the
frame operations ask nothing of the values but their widths.
-/

namespace FrameFlow

/-- The left side succeeds with a related result whenever the right side succeeds. -/
def Follows {ε α β : Type} (R : α → β → Prop) (x : Except ε α) (y : Except ε β) : Prop :=
  ∀ b, y = .ok b → ∃ a, x = .ok a ∧ R a b

namespace Follows

variable {ε α β : Type} {R : α → β → Prop}

private theorem ok {a : α} {b : β} (h : R a b) :
    Follows R (.ok a : Except ε α) (.ok b : Except ε β) := by
  intro b' hb'
  cases hb'
  exact ⟨a, rfl, h⟩

private theorem error {x : Except ε α} {e : ε} : Follows R x (.error e : Except ε β) := by
  intro b hb
  cases hb

theorem iff_concurs {x : Except ε α} {y : Except ε β} :
    Follows R x y ↔ Concurs (fun _ => True) (fun b a => R a b) y x := by
  constructor
  · intro h
    cases y with
    | error e => exact .excused x trivial
    | ok b =>
        obtain ⟨a, rfl, hab⟩ := h b rfl
        exact .ok hab
  · intro h
    cases h with
    | ok hab => exact ok hab
    | error e | excused _ _ => exact error

end Follows

namespace Frame

variable {R : Value → Value → Prop} {F G : Frame}

/-! ## The operand stack -/

theorem widths_eq (hR : JoinStable R) {s t : List Value} (h : List.Forall₂ R s t) :
    s.map Value.width = t.map Value.width := by
  induction h with
  | nil => rfl
  | cons hab _ ih => simp [hR.width hab, ih]

theorem stackSlots_eq (hR : JoinStable R) (h : Rel R F G) : F.stackSlots = G.stackSlots := by
  rw [stackSlots, widths_eq hR h.stack, stackSlots]

theorem push_follows (hR : JoinStable R) (h : Rel R F G) {a b : Value} (hab : R a b) :
    Follows (Rel R) (F.push a) (G.push b) := by
  intro H hH
  obtain ⟨hfits, rfl⟩ := push_ok_iff.1 hH
  refine ⟨_, push_ok_iff.2 ⟨?_, rfl⟩, ⟨h.limit, h.size⟩, h.locals, .cons hab h.stack⟩
  rw [h.limit, stackSlots_eq hR h, hR.width hab]
  exact hfits

theorem pop_follows (h : Rel R F G) : Follows (TakenOff R (Rel R)) F.pop G.pop := by
  rintro ⟨b, G'⟩ hG
  obtain ⟨rest, hstack, rfl⟩ := pop_ok_iff.1 hG
  have hrel := h.stack
  rw [hstack] at hrel
  obtain ⟨a, rest', hab, hrest, hF⟩ := List.forall₂_cons_right_iff.1 hrel
  exact ⟨⟨a, _⟩, pop_ok_iff.2 ⟨rest', hF, rfl⟩, hab, ⟨h.limit, h.size⟩, h.locals, hrest⟩

/-! ## The local table -/

theorem readLocal_follows (h : Rel R F G) (k : Nat) :
    Follows R (F.readLocal k) (G.readLocal k) := by
  intro b hb
  obtain ⟨a, ha, hab⟩ := h.locals k b (readLocal_ok_iff.1 hb)
  exact ⟨a, readLocal_ok_iff.2 ha, hab⟩

theorem writeLocal_follows (hR : JoinStable R) (h : Rel R F G) {a b : Value} (hab : R a b)
    (k : Nat) : Follows (Rel R) (F.writeLocal k a) (G.writeLocal k b) := by
  intro H hH
  obtain ⟨hfits, rfl⟩ := writeLocal_ok_iff.1 hH
  have hw : a.width = b.width := hR.width hab
  have hfits' : k + a.width.slots ≤ F.locals.length := by
    rw [hw, h.size]
    exact hfits
  have hpos := a.width.slots_pos
  have hk : k < F.locals.length := by omega
  refine ⟨_, writeLocal_ok_iff.2 ⟨hfits', rfl⟩, ⟨h.limit, by simp [h.size]⟩, ?_, h.stack⟩
  intro j c hc
  rcases (placeLocal_present (h.size ▸ hk)).1 hc with ⟨rfl, rfl⟩ | ⟨hj, hlocal, hbelow, hnext⟩
  · exact ⟨a, (placeLocal_present hk).2 (.inl ⟨rfl, rfl⟩), hab⟩
  · obtain ⟨d, hd, hdc⟩ := h.locals j c hlocal
    refine ⟨d, (placeLocal_present hk).2 (.inr ⟨hj, hd, ?_, ?_⟩), hdc⟩
    · rw [hR.width hdc]
      exact hbelow
    · rw [hw]
      exact hnext

end Frame

/-! ## Instructions -/

/-- What an instruction computes from related operands is related, and so is what it makes up. -/
structure Respected (R : Value → Value → Prop) : Prop extends JoinStable R where
  unresolved : ∀ w, R (.unresolved w) (.unresolved w)
  const : ∀ c, R (.const c) (.const c)
  ref : ∀ className, R (.ref className) (.ref className)
  fold₁ : ∀ {f w a b}, (∀ c d, f c = some d → d.width = w) → R a b →
    R (.ofFold (a.fold₁ f) w) (.ofFold (b.fold₁ f) w)
  fold₂ : ∀ {f w a b a' b'}, (∀ c c' d, f c c' = some d → d.width = w) → R a b → R a' b' →
    R (.ofFold (a.fold₂ f a') w) (.ofFold (b.fold₂ f b') w)
  instanceTest : ∀ {a b} className, R a b → R (a.instanceTest className) (b.instanceTest className)

namespace Respected

open FrameFlow.Frame

variable {R : Value → Value → Prop} {F G : Frame}

theorem parallel (hR : Respected R) :
    Parallel (fun _ => True) (fun b a => R a b) fun G F => Rel R F G where
  width hab := (hR.width hab).symm
  push h hab := Follows.iff_concurs.1 (push_follows hR.toJoinStable h hab)
  pop h := Follows.iff_concurs.1 (pop_follows h)
  read h k := Follows.iff_concurs.1 (readLocal_follows h k)
  write h hab k := Follows.iff_concurs.1 (writeLocal_follows hR.toJoinStable h hab k)
  unresolved := hR.unresolved
  const := hR.const
  ref := hR.ref
  fold₁ := hR.fold₁
  fold₂ := hR.fold₂

theorem popWidths_follows (hR : Respected R) (h : Rel R F G) (ws : List Width) :
    Follows (TakenOff (List.Forall₂ R) (Rel R)) (F.popWidths ws) (G.popWidths ws) := by
  intro y hy
  obtain ⟨x, hx, hargs, hrest⟩ := Follows.iff_concurs.2 (hR.parallel.popWidths h ws) y hy
  exact ⟨x, hx, hargs.flip, hrest⟩

/-- Every instruction respects the relation, as long as nothing outside the method is asked. -/
theorem effect_follows (hR : Respected R) (h : Rel R F G) {τ : Type} (insn : Insn τ) :
    Follows (Rel R) (insn.effect F) (insn.effect G) :=
  Follows.iff_concurs.2 (hR.parallel.effect_of_test hR.instanceTest h insn)

end Respected

end FrameFlow
