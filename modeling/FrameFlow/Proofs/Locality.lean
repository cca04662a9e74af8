import FrameFlow.Proofs.Isotone

/-!
# Instructions are local

An instruction works on the top of the stack.  What lies below its operands is
neither looked at nor moved, and all that can happen to an instruction for want of
it is an underflow.  Of the locals an instruction changes at most the one that it
writes and its two neighbours: the one before may lose a value that reaches into
the slot, and the one after may be taken by the second half of the new value.
-/

namespace FrameFlow

variable {σ : Type}

namespace Frame

variable {F G : Frame}

/-! ## More values below -/

def onTopOf (F : Frame) (below : List Value) : Frame :=
  { F with stack := F.stack ++ below }

/-- The same frame with more values below, where no limit counts them. -/
def Raised (below : List Value) (F G : Frame) : Prop :=
  F.limit = none ∧ G = F.onTopOf below

/-- Only a pop can tell the two frames apart, and only where the lower one has nothing left. -/
theorem raised_parallel (below : List Value) :
    Parallel (fun e => e = .stackUnderflow) Eq (Raised below) where
  width := congrArg Value.width
  push := by
    rintro F _ v _ ⟨hlimit, rfl⟩ rfl
    simp only [push, onTopOf, hlimit]
    exact .ok ⟨rfl, rfl⟩
  pop := by
    rintro F _ ⟨hlimit, rfl⟩
    cases hstack : F.stack with
    | nil =>
        simp only [pop, hstack]
        exact .excused _ rfl
    | cons v rest =>
        simp only [pop, onTopOf, hstack, List.cons_append]
        exact .ok ⟨rfl, hlimit, rfl⟩
  read := by
    rintro F _ ⟨_, rfl⟩ k
    exact (Ensures.any _).concurs fun _ _ => rfl
  write := by
    rintro F _ v _ ⟨hlimit, rfl⟩ rfl k
    simp only [writeLocal, onTopOf]
    by_cases hfits : k + v.width.slots ≤ F.locals.length
    · simp only [hfits, if_true]
      exact .ok ⟨hlimit, rfl⟩
    · simp only [hfits, if_false]
      exact .error _
  unresolved _ := rfl
  const _ := rfl
  ref _ := rfl
  fold₁ := by
    rintro f w a _ _ rfl
    rfl
  fold₂ := by
    rintro f w a _ a' _ _ rfl rfl
    rfl

/-! ## Locals around a slot -/

/-- The locals of the second frame differ at most at the slot and next to it. -/
structure SameAround (n : Nat) (F G : Frame) : Prop where
  size : G.locals.length = F.locals.length
  locals : ∀ k, k + 1 ≠ n → k ≠ n → k ≠ n + 1 → G.locals[k]? = F.locals[k]?

private theorem cutBelow_getElem? {locals : List (Option Value)} {n k : Nat} (hk : k + 1 ≠ n) :
    (cutBelow locals n)[k]? = locals[k]? := by
  cases n with
  | zero => rfl
  | succ n =>
      simp only [cutBelow]
      split
      · exact List.getElem?_set_ne (by omega)
      · rfl

private theorem placeLocal_getElem? {locals : List (Option Value)} {n k : Nat} (v : Value)
    (hbelow : k + 1 ≠ n) (hat : k ≠ n) (habove : k ≠ n + 1) :
    (placeLocal locals n v)[k]? = locals[k]? := by
  unfold placeLocal
  rw [List.getElem?_set_ne (Ne.symm hat)]
  cases v.width with
  | one => exact cutBelow_getElem? hbelow
  | two => exact (List.getElem?_set_ne (Ne.symm habove)).trans (cutBelow_getElem? hbelow)

private theorem writeLocal_sameAround {n : Nat} {v : Value} (h : F.writeLocal n v = .ok G) :
    SameAround n F G := by
  obtain ⟨_, rfl⟩ := writeLocal_ok_iff.1 h
  exact ⟨placeLocal_length _ _ _, fun k => placeLocal_getElem? v⟩

end Frame

private theorem Insn.effect_sameAround {τ : Type} {insn : Insn τ} {n : Nat}
    (hinsn : insn.written? = some n) (F : Frame) : Ensures (F.SameAround n) (insn.effect F) := by
  cases insn with
  | store kind slot =>
      cases hinsn
      refine Ensures.bind (P := fun x => x.2.locals = F.locals) ?_ fun x hx G hG => ?_
      · rintro ⟨v, G⟩ hpop
        obtain ⟨_, _, _, rfl⟩ := Frame.popWidth_ok_iff.1 hpop
        rfl
      · obtain ⟨hsize, hlocals⟩ := Frame.writeLocal_sameAround hG
        rw [hx] at hsize hlocals
        exact ⟨hsize, hlocals⟩
  | increment slot delta =>
      cases hinsn
      exact (Ensures.any _).bind fun v _ G hG => Frame.writeLocal_sameAround hG
  | _ => cases hinsn

namespace Config

variable {cfg : Config σ} {I : σ → Prop} {world world' : σ} {position : Nat} {insn : Insn Nat}
  {F G : Frame}

private theorem onward_of_ok (h : (cfg.transfer position insn F world).1 = .ok G) :
    cfg.onward world position insn F = .ok G := by
  simp only [onward, h]

private theorem transfer_locals (h : (cfg.transfer position insn F world).1 = .ok G)
    (hinsn : insn.written? = none) : G.locals = F.locals := by
  have hheld := Frame.held_clearStack F
  have hrest : G.clearStack = F.clearStack := onward_ensures hheld cfg world position rfl
    (hheld.ensures_effect_of_unwritten rfl hinsn) G (onward_of_ok h)
  rw [Frame.eq_of_clearStack hrest]

private theorem transfer_sameAround (h : (cfg.transfer position insn F world).1 = .ok G) {n : Nat}
    (hinsn : insn.written? = some n) : F.SameAround n G := by
  have hnofield (f : FieldRef) : insn ≠ .field .getStatic f := by
    rintro rfl
    cases hinsn
  have hnocall (m : MethodRef) : insn ≠ .invoke .static m := by
    rintro rfl
    cases hinsn
  have honward := onward_of_ok h
  rw [onward_eq_effect cfg world position F hnofield hnocall] at honward
  exact Insn.effect_sameAround hinsn F G honward

private theorem transfer_raised (hcfg : cfg.Repeatable I) (hworld : I world) (hworld' : I world')
    (position : Nat) (insn : Insn Nat) (hlimit : F.limit = none) (below : List Value) :
    Concurs (Fault.Excused fun e => e = .stackUnderflow) (Frame.Raised below)
      (cfg.transfer position insn F world).1
      (cfg.transfer position insn (F.onTopOf below) world').1 := by
  have hparallel := Frame.raised_parallel below
  refine hparallel.transfer (fun f => ?_) (fun m args args' hargs => ?_) ⟨hlimit, rfl⟩ ?_
  · exact (hcfg.staticField f).answer_eq hworld hworld'
  · obtain rfl := List.forall₂_eq_eq_eq ▸ hargs
    rw [(hcfg.staticCall position m args).answer_eq hworld hworld']
    exact (Ensures.any _).concurs fun result _ => by cases result <;> simp
  · exact hparallel.effect_of_test (fun _ hab => hab ▸ rfl) ⟨hlimit, rfl⟩ insn

/--
Without a stack limit, what an instruction does to a stack it does on top of any
other one, and if it fails there for another reason than an underflow, it fails in
the same way.  An instruction that does not write leaves all locals alone, and one
that writes a slot all but that slot and the two next to it.
-/
theorem transfer_local (hcfg : cfg.Repeatable I) (world world' : σ) (hworld : I world)
    (hworld' : I world') (position : Nat) (insn : Insn Nat) {F : Frame} (hlimit : F.limit = none) :
    (∀ G, (cfg.transfer position insn F world).1 = .ok G → ∀ below,
      (cfg.transfer position insn (F.onTopOf below) world').1 = .ok (G.onTopOf below)) ∧
    (∀ fault, (cfg.transfer position insn F world).1 = .error fault →
      fault ≠ .frame .stackUnderflow → ∀ below,
        (cfg.transfer position insn (F.onTopOf below) world').1 = .error fault) ∧
    ∀ G, (cfg.transfer position insn F world).1 = .ok G →
      (insn.written? = none → G.locals = F.locals) ∧
        ∀ n, insn.written? = some n → F.SameAround n G := by
  have hraised := transfer_raised hcfg hworld hworld' position insn hlimit
  refine ⟨fun G hG below => ?_, fun fault hfault hother below => ?_, fun G hG => ?_⟩
  · have hconcurs := hraised below
    rw [hG] at hconcurs
    obtain ⟨_, hok, _, rfl⟩ := hconcurs.of_ok
    exact hok
  · have hconcurs := hraised below
    rw [hfault] at hconcurs
    refine hconcurs.of_error fun hexcused => ?_
    cases fault with
    | frame cause => exact hother (congrArg Fault.frame hexcused)
    | simulation f => exact hexcused
  · exact ⟨transfer_locals hG, fun n => transfer_sameAround hG⟩

end Config

private theorem calculator_repeatable : calculator.Repeatable fun _ => True where
  fields _ h := by cases h
  calls _ h := by cases h
  host _ h := calculator_host h
  policy _ h := by cases h

def bare (stack : List Value) : Frame :=
  ⟨[some (.const (.long 3)), none, some (.ref "Order")], stack, none⟩

def buried : List Value :=
  [.const (.long 9), .unresolved .one, .sim (.object "Order" 7)]

theorem operands_local :
    (calculator.transfer 2 (.invoke .static divide)
        ((bare [.const (.int 3), .const (.int 12)]).onTopOf buried) 7).1 =
      .ok ((bare [.const (.int 4)]).onTopOf buried) ∧
    (calculator.transfer 2 (.invoke .static divide)
        ((bare [.const (.int 0), .const (.int 12)]).onTopOf buried) 7).1 =
      .error (.simulation ⟨2, divide, .hostError, ⟨.targetException, "zero"⟩⟩) ∧
    (calculator.transfer 2 (.stack .dup2X2)
        ((bare [.const (.int 1), .const (.int 2), .const (.long 5)]).onTopOf buried) 7).1 =
      .ok ((bare [.const (.int 1), .const (.int 2), .const (.long 5), .const (.int 1),
        .const (.int 2)]).onTopOf buried) ∧
    ∃ G, (calculator.transfer 2 (.store .int 1) (bare [.const (.int 6)]) 0).1 = .ok G ∧
      G.locals = [none, some (.const (.int 6)), some (.ref "Order")] ∧
      (bare [.const (.int 6)]).SameAround 1 G := by
  have hlocal (insn : Insn Nat) (stack : List Value) :=
    Config.transfer_local calculator_repeatable 0 7 trivial trivial 2 insn (F := bare stack) rfl
  refine ⟨(hlocal _ _).1 _ (by decide +kernel) _, (hlocal _ _).2.1 _ (by cbv) (by simp) _,
    (hlocal _ _).1 _ (by decide +kernel) _, ?_⟩
  have hstore : (calculator.transfer 2 (.store .int 1) (bare [.const (.int 6)]) 0).1 =
      .ok ⟨[none, some (.const (.int 6)), some (.ref "Order")], [], none⟩ := by decide +kernel
  exact ⟨_, hstore, rfl, ((hlocal _ _).2.2 _ hstore).2 1 rfl⟩

end FrameFlow
