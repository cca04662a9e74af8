import FrameFlow.Analysis
import FrameFlow.Proofs.Monotone
import Mathlib.Data.List.Permutation

/-!
# Two ways to carry a constant

A constant is carried openly or by the host.  Folding, calls and everything that
only moves values about treat the two alike: on frames that differ in nothing
else, an instruction fails with the same error or gives frames that again differ
in nothing else.

The class test is the exception.  It knows the answer for null and for strings,
but only where they are carried openly, and so it tells the carriers apart there
and nowhere else.
-/

namespace FrameFlow

variable {σ : Type}

/-- Equal, or the same constant carried in two ways. -/
inductive Value.Twin : Value → Value → Prop
  | refl (v : Value) : Twin v v
  | hidden (c : Const) : Twin (const c) (sim (.const c))
  | shown (c : Const) : Twin (sim (.const c)) (const c)

structure Frame.Twin (F G : Frame) : Prop where
  limit : F.limit = G.limit
  locals : List.Forall₂ (Option.Rel Value.Twin) F.locals G.locals
  stack : List.Forall₂ Value.Twin F.stack G.stack

/-! ## Values -/

namespace Value

variable {a b : Value}

theorem Twin.width (h : Twin a b) : a.width = b.width := by
  cases h <;> rfl

private theorem Twin.const? (h : Twin a b) : a.const? = b.const? := by
  cases h <;> rfl

private theorem Twin.host? (h : Twin a b) : a.host? = b.host? := by
  cases h <;> rfl

private theorem Twin.symm (h : Twin a b) : Twin b a := by
  cases h with
  | refl => exact .refl a
  | hidden c => exact .shown c
  | shown c => exact .hidden c

private theorem Twin.comm : Twin a b ↔ Twin b a :=
  ⟨Twin.symm, Twin.symm⟩

private theorem Twin.eq_unresolved {w : Width} (h : Twin a (unresolved w)) : a = unresolved w := by
  cases h
  rfl

def KnownTo (className : String) (v : Value) : Prop :=
  v.const? = some .null ∨ className = "java/lang/String" ∧ ∃ s, v.const? = some (.string s)

private theorem instanceTest_const (c : Const) (className : String) :
    (const c).instanceTest className = unresolved .one ↔ ¬(const c).KnownTo className := by
  cases c <;> simp [instanceTest, KnownTo, Value.const?]

private theorem instanceTest_twin (c : Const) (className : String) :
    Twin ((const c).instanceTest className) ((sim (.const c)).instanceTest className) ↔
      ¬(const c).KnownTo className := by
  rw [← instanceTest_const]
  constructor
  · intro h
    exact h.eq_unresolved
  · intro h
    rw [h]
    exact .refl _

private theorem Twin.instanceTest_iff (h : Twin a b) (className : String) :
    Twin (a.instanceTest className) (b.instanceTest className) ↔
      ¬(a ≠ b ∧ a.KnownTo className) := by
  cases h with
  | refl => exact iff_of_true (.refl _) fun h => h.1 rfl
  | hidden c => simpa using instanceTest_twin c className
  | shown c =>
      have hknown : (sim (.const c)).KnownTo className ↔ (const c).KnownTo className := Iff.rfl
      rw [hknown]
      simpa using (Twin.comm).trans (instanceTest_twin c className)

private theorem Twin.arguments {args args' : List Value} (h : List.Forall₂ Twin args args') :
    hostArguments? args = hostArguments? args' ∧ constArguments? args = constArguments? args' := by
  induction h with
  | nil => exact ⟨rfl, rfl⟩
  | cons hab _ ih =>
      simp only [hostArguments?, constArguments?, hab.host?, hab.const?, ih.1, ih.2, and_self]

end Value

/-! ## Frames -/

section Tables

variable {α β : Type} {R : α → β → Prop} {l : List α} {l' : List β}

private theorem forall₂_getElem? (h : List.Forall₂ R l l') (k : Nat) :
    Option.Rel R l[k]? l'[k]? := by
  induction h generalizing k with
  | nil => exact .none
  | cons hab _ ih =>
      cases k with
      | zero => exact .some hab
      | succ k => simpa using ih k

private theorem forall₂_set (h : List.Forall₂ R l l') {a : α} {b : β} (hab : R a b) (k : Nat) :
    List.Forall₂ R (l.set k a) (l'.set k b) := by
  induction h generalizing k with
  | nil => exact .nil
  | cons hhead htail ih =>
      cases k with
      | zero => exact .cons hab htail
      | succ k => exact .cons hhead (ih k)

end Tables

namespace Frame

variable {F G : Frame} {a b : Value}

private theorem Twin.stackSlots (h : F.Twin G) : F.stackSlots = G.stackSlots := by
  have hstack := h.stack
  unfold Frame.stackSlots
  generalize F.stack = s at hstack ⊢
  generalize G.stack = t at hstack ⊢
  induction hstack with
  | nil => rfl
  | cons hab _ ih => simp only [List.map_cons, Width.total_cons, hab.width, ih]

section Locals

variable {l l' : List (Option Value)} (h : List.Forall₂ (Option.Rel Value.Twin) l l')

include h

private theorem isWideAt_twin (k : Nat) : isWideAt l k = isWideAt l' k := by
  have hk := forall₂_getElem? h k
  unfold isWideAt
  generalize l[k]? = slot at hk ⊢
  generalize l'[k]? = slot' at hk ⊢
  cases hk with
  | none => rfl
  | some hslot =>
      cases hslot with
      | none => rfl
      | some hab => simp only [hab.width]

private theorem cutBelow_twin (k : Nat) :
    List.Forall₂ (Option.Rel Value.Twin) (cutBelow l k) (cutBelow l' k) := by
  cases k with
  | zero => exact h
  | succ k =>
      simp only [cutBelow, isWideAt_twin h k]
      split
      · exact forall₂_set h .none k
      · exact h

private theorem placeLocal_twin (hab : a.Twin b) (k : Nat) :
    List.Forall₂ (Option.Rel Value.Twin) (placeLocal l k a) (placeLocal l' k b) := by
  have hcut := cutBelow_twin h k
  unfold placeLocal
  rw [hab.width]
  refine forall₂_set ?_ (.some hab) k
  cases b.width with
  | one => exact hcut
  | two => exact forall₂_set hcut .none (k + 1)

end Locals

private theorem Twin.push (h : F.Twin G) (hwidth : a.width = b.width) :
    Concurs (fun _ => False)
      (fun H K => H = { F with stack := a :: F.stack } ∧ K = { G with stack := b :: G.stack })
      (F.push a) (G.push b) := by
  unfold Frame.push
  rw [← h.limit, h.stackSlots, hwidth]
  cases F.limit with
  | none => exact .ok ⟨rfl, rfl⟩
  | some limit =>
      simp only
      split
      · exact .ok ⟨rfl, rfl⟩
      · exact .error _

private theorem twin_parallel : Parallel (fun _ => False) Value.Twin Twin where
  width := Value.Twin.width
  push h hab := by
    refine (h.push hab.width).mono fun H K hHK => ?_
    obtain ⟨rfl, rfl⟩ := hHK
    exact ⟨h.limit, h.locals, .cons hab h.stack⟩
  pop {F G} h := by
    have hstack := h.stack
    unfold Frame.pop
    generalize F.stack = s at hstack ⊢
    generalize G.stack = t at hstack ⊢
    cases hstack with
    | nil => exact .error _
    | cons hab hrest => exact .ok ⟨hab, h.limit, h.locals, hrest⟩
  read {F G} h k := by
    have hk := forall₂_getElem? h.locals k
    unfold readLocal
    rw [h.locals.length_eq]
    generalize F.locals[k]? = slot at hk ⊢
    generalize G.locals[k]? = slot' at hk ⊢
    cases hk with
    | none => exact .error _
    | some hslot =>
        cases hslot with
        | none => exact .error _
        | some hab => exact .ok hab
  write h hab k := by
    unfold writeLocal
    rw [hab.width, h.locals.length_eq]
    split
    · exact .ok ⟨h.limit, placeLocal_twin h.locals hab k, h.stack⟩
    · exact .error _
  unresolved _ := .refl _
  const _ := .refl _
  ref _ := .refl _
  fold₁ _ hab := by
    unfold Value.fold₁
    rw [hab.const?]
    exact .refl _
  fold₂ _ hab hab' := by
    unfold Value.fold₂
    rw [hab.const?, hab'.const?]
    exact .refl _

end Frame

/-! ## Instructions -/

/-- A class test on two carriers of a constant that it knows. -/
def Insn.TellsApart (insn : Insn Nat) (F G : Frame) : Prop :=
  ∃ className a b, insn = .instanceOf className ∧ F.top? = some a ∧ G.top? = some b ∧
    a ≠ b ∧ a.KnownTo className

namespace Frame

variable {F G : Frame}

private theorem top?_of_popWidth {w : Width} {x : Value × Frame} (h : F.popWidth w = .ok x) :
    F.top? = some x.1 := by
  obtain ⟨rest, hstack, _⟩ := popWidth_ok_iff.1 h
  simp [top?, hstack]

private theorem Twin.instanceOf (h : F.Twin G) (className : String) :
    Concurs (fun _ => False)
      (fun H K => H.Twin K ↔ ¬(Insn.instanceOf className).TellsApart F G)
      ((Insn.instanceOf className : Insn Nat).effect F)
      ((Insn.instanceOf className : Insn Nat).effect G) := by
  refine (twin_parallel.popWidth h .one).bind_ok fun x y hx hy hxy => ?_
  obtain ⟨hab, hrest⟩ := hxy
  have htells : (Insn.instanceOf className).TellsApart F G ↔
      x.1 ≠ y.1 ∧ x.1.KnownTo className := by
    constructor
    · rintro ⟨_, a, b, hinsn, ha, hb, hapart⟩
      cases hinsn
      cases (top?_of_popWidth hx).symm.trans ha
      cases (top?_of_popWidth hy).symm.trans hb
      exact hapart
    · intro hapart
      exact ⟨className, _, _, rfl, top?_of_popWidth hx, top?_of_popWidth hy, hapart⟩
  have hwidth : (x.1.instanceTest className).width = (y.1.instanceTest className).width := by
    rw [Value.instanceTest_width, Value.instanceTest_width]
  refine (hrest.push hwidth).mono fun H K hHK => ?_
  obtain ⟨rfl, rfl⟩ := hHK
  rw [htells, ← hab.instanceTest_iff]
  constructor
  · intro hHK
    exact (List.forall₂_cons.1 hHK.stack).1
  · intro htest
    exact ⟨hrest.limit, hrest.locals, .cons htest hrest.stack⟩

end Frame

namespace Config

variable {cfg : Config σ}

/-- A host may keep a world of its own, as long as its answers do not depend on it. -/
theorem transfer_twin_iff (hcfg : cfg.Tabled) {I : σ → Prop}
    (hhost : ∀ host, cfg.host = some host → ∀ m args, Repeats I (host m args))
    (world world' : σ) (hworld : I world) (hworld' : I world') (position : Nat) (insn : Insn Nat)
    {F G : Frame} (hFG : F.Twin G) :
    (∃ fault, (cfg.transfer position insn F world).1 = .error fault ∧
        (cfg.transfer position insn G world').1 = .error fault) ∨
      ∃ H K, (cfg.transfer position insn F world).1 = .ok H ∧
        (cfg.transfer position insn G world').1 = .ok K ∧
        (H.Twin K ↔ ¬insn.TellsApart F G) := by
  have hstrict (fault : Fault) : ¬Fault.Excused (fun _ => False) fault := by
    cases fault <;> exact id
  refine Concurs.cases_of_strict (E := Fault.Excused fun _ => False) ?_ hstrict
  by_cases htest : ∃ className, insn = .instanceOf className
  · obtain ⟨className, rfl⟩ := htest
    exact (hFG.instanceOf className).ofFrame
  · have hrepeats := hcfg.repeatable hhost
    have hfield (f : FieldRef) :
        (cfg.staticField f world).1.Twin (cfg.staticField f world').1 := by
      have hsame : (cfg.staticField f world).1 = (cfg.staticField f world').1 :=
        (hrepeats.staticField f).answer_eq hworld hworld'
      rw [hsame]
      exact .refl _
    have hcall (m : MethodRef) (args args' : List Value)
        (hargs : List.Forall₂ Value.Twin args args') :
        Concurs (fun _ => False) (Option.Rel Value.Twin)
          (cfg.staticCall position m args world).1 (cfg.staticCall position m args' world').1 := by
      obtain ⟨hhostArgs, hconstArgs⟩ := Value.Twin.arguments hargs
      have hsame : (cfg.staticCall position m args' world).1 =
          (cfg.staticCall position m args' world').1 :=
        (hrepeats.staticCall position m args').answer_eq hworld hworld'
      rw [hcfg.staticCall_congr position m hhostArgs hconstArgs, hsame]
      refine (Ensures.any _).concurs fun result _ => ?_
      cases result with
      | none => exact .none
      | some v => exact .some (.refl v)
    have heffect := Frame.twin_parallel.effect hFG insn fun className hinsn =>
      absurd ⟨className, hinsn⟩ htest
    refine (Frame.twin_parallel.transfer hfield hcall hFG heffect).mono fun H K hHK => ?_
    refine iff_of_true hHK ?_
    rintro ⟨className, _, _, hinsn, _⟩
    exact htest ⟨className, hinsn⟩

end Config

def relay : MethodRef :=
  ⟨"Net", "relay", ⟨[.base .int, .object "java/lang/String"], some (.base .int)⟩⟩

def relaying : Config Nat where
  mode := .simulated
  calls := some (PureMethods.empty.insert ⟨"Net", "port", ⟨[], some (.base .int)⟩⟩
    fun _ => some (.int 80)).source
  host := some fun _ args count => (.ok args.head?, count + 1)

def carriers (number text : Const → Value) : Frame :=
  ⟨[some (number (.long 3)), none], [text (.string "a"), number (.int 4)], some 3⟩

def byHost (c : Const) : Value :=
  .sim (.const c)

def relayed (insn : Insn Nat) (number text : Const → Value) (count : Nat) : Except Fault Frame :=
  (relaying.transfer 0 insn (carriers number text) count).1

theorem carriers_twin :
    (∃ H K, relayed (.invoke .static relay) .const byHost 0 = .ok H ∧
        relayed (.invoke .static relay) byHost .const 7 = .ok K ∧ H.Twin K) ∧
      (∃ H K, relayed (.instanceOf "java/lang/Object") .const byHost 0 = .ok H ∧
        relayed (.instanceOf "java/lang/Object") byHost .const 7 = .ok K ∧ H.Twin K) ∧
      ∃ H K, relayed (.instanceOf "java/lang/String") .const byHost 0 = .ok H ∧
        relayed (.instanceOf "java/lang/String") byHost .const 7 = .ok K ∧ ¬H.Twin K := by
  have htabled : relaying.Tabled := ⟨.inl rfl, .inr ⟨_, rfl⟩⟩
  have hhost : ∀ host, relaying.host = some host →
      ∀ m args, Repeats (fun _ => True) (host m args) := by
    intro host hhost m args
    cases hhost
    exact ⟨.ok args.head?, fun _ _ => ⟨rfl, trivial⟩⟩
  have htwin : (carriers .const byHost).Twin (carriers byHost .const) :=
    ⟨rfl, .cons (.some (.hidden _)) (.cons .none .nil), .cons (.shown _) (.cons (.hidden _) .nil)⟩
  have hstep {insn : Insn Nat} {H : Frame} (hok : relayed insn .const byHost 0 = .ok H) :
      ∃ K, relayed insn byHost .const 7 = .ok K ∧
        (H.Twin K ↔ ¬insn.TellsApart (carriers .const byHost) (carriers byHost .const)) := by
    rcases Config.transfer_twin_iff htabled hhost 0 7 trivial trivial 0 insn htwin with
      ⟨fault, hfault, _⟩ | ⟨H', K, hH, hK, hiff⟩
    · cases hok.symm.trans hfault
    · cases hok.symm.trans hH
      exact ⟨K, hK, hiff⟩
  refine ⟨?_, ?_, ?_⟩
  · have hok : relayed (.invoke .static relay) .const byHost 0 =
        .ok ⟨[some (.const (.long 3)), none], [.const (.int 4)], some 3⟩ := by
      cbv
    obtain ⟨K, hK, hiff⟩ := hstep hok
    refine ⟨_, K, hok, hK, hiff.2 ?_⟩
    rintro ⟨_, _, _, hinsn, _⟩
    cases hinsn
  · have hok : relayed (.instanceOf "java/lang/Object") .const byHost 0 =
        .ok ⟨[some (.const (.long 3)), none], [.unresolved .one, .const (.int 4)], some 3⟩ := by
      cbv
    obtain ⟨K, hK, hiff⟩ := hstep hok
    refine ⟨_, K, hok, hK, hiff.2 ?_⟩
    rintro ⟨_, _, _, hinsn, htop, _, _, hknown⟩
    cases hinsn
    cases htop
    simp [Value.KnownTo, byHost, Value.const?] at hknown
  · have hok : relayed (.instanceOf "java/lang/String") .const byHost 0 =
        .ok ⟨[some (.const (.long 3)), none], [.unresolved .one, .const (.int 4)], some 3⟩ := by
      cbv
    obtain ⟨K, hK, hiff⟩ := hstep hok
    refine ⟨_, K, hok, hK, fun hHK => hiff.1 hHK ?_⟩
    exact ⟨_, _, _, rfl, rfl, rfl, by simp [byHost], .inr ⟨rfl, "a", rfl⟩⟩

def probe : Method where
  owner := "Demo"
  name := "f"
  type := ⟨[], some (.base .int)⟩
  access := .publicStatic
  maxLocals := 0
  maxStack := none
  code := #[.field .getStatic ⟨"Demo", "x", .object "java/lang/Object"⟩, .instanceOf "Foo",
    .ret (some .int)]
  handlers := []

def filled (v : Value) : Config Unit where
  fields := some fun _ world => (v, world)

/-- Null is no object of any class, but the test knows it only from the open carrier. -/
theorem null_told_apart :
    (∃ F G H K, F.Twin G ∧
        (({} : Config Unit).transfer 1 (.instanceOf "Foo") F ()).1 = .ok H ∧
        (({} : Config Unit).transfer 1 (.instanceOf "Foo") G ()).1 = .ok K ∧ ¬H.Twin K) ∧
      ((filled (.const .null)).analyze probe ()).1.map Analysis.result =
        .ok (some (.const (.int 0))) ∧
      ((filled (byHost .null)).analyze probe ()).1.map Analysis.result =
        .ok (some (.unresolved .one)) := by
  refine ⟨?_, by cbv, by cbv⟩
  refine ⟨⟨[], [.const .null], none⟩, ⟨[], [byHost .null], none⟩, _, _,
    ⟨rfl, .nil, .cons (.hidden _) .nil⟩, rfl, rfl, fun htwin => ?_⟩
  cases htwin.stack with
  | cons hab _ => cases hab

end FrameFlow
