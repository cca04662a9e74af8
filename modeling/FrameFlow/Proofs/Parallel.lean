import FrameFlow.Proofs.FoldKind
import FrameFlow.Transfer
import Mathlib.Data.List.Forall2
import Mathlib.Data.Option.Basic

/-!
# Instructions on two frames

An instruction gets at a frame only by pushing and popping values and by reading
and writing locals, and of the values it looks at no more than their widths and
the constants they stand for; the class test alone sees more, and only two
instructions write.  So if these operations do the same on two related frames,
every other instruction does.

Doing the same means to fail with the same error or to succeed with related
results.  Some errors of the left side may be excused: then the right side may
end in any way.
-/

namespace FrameFlow

/-- Both fail with the same error, or both succeed with related results; after an
excused error of the left side nothing is said about the right one. -/
inductive Concurs {ε α β : Type} (E : ε → Prop) (R : α → β → Prop) :
    Except ε α → Except ε β → Prop
  | ok {a : α} {b : β} : R a b → Concurs E R (.ok a) (.ok b)
  | error (e : ε) : Concurs E R (.error e) (.error e)
  | excused {e : ε} (y : Except ε β) : E e → Concurs E R (.error e) y

namespace Concurs

variable {ε α β α' β' : Type} {E : ε → Prop} {R : α → β → Prop} {S : α' → β' → Prop}

theorem bind_ok {x : Except ε α} {y : Except ε β} {f : α → Except ε α'} {g : β → Except ε β'}
    (h : Concurs E R x y)
    (hfg : ∀ a b, x = .ok a → y = .ok b → R a b → Concurs E S (f a) (g b)) :
    Concurs E S (x >>= f) (y >>= g) := by
  cases h with
  | ok hab => exact hfg _ _ rfl rfl hab
  | error e => exact .error e
  | excused y he => exact .excused _ he

theorem bind {x : Except ε α} {y : Except ε β} {f : α → Except ε α'} {g : β → Except ε β'}
    (h : Concurs E R x y) (hfg : ∀ a b, R a b → Concurs E S (f a) (g b)) :
    Concurs E S (x >>= f) (y >>= g) :=
  h.bind_ok fun a b _ _ hab => hfg a b hab

theorem mono {R' : α → β → Prop} {x : Except ε α} {y : Except ε β} (h : Concurs E R x y)
    (hR : ∀ a b, R a b → R' a b) : Concurs E R' x y := by
  cases h with
  | ok hab => exact .ok (hR _ _ hab)
  | error e => exact .error e
  | excused y he => exact .excused y he

theorem of_ok {a : α} {y : Except ε β} (h : Concurs E R (.ok a) y) : ∃ b, y = .ok b ∧ R a b := by
  cases h with
  | ok hab => exact ⟨_, rfl, hab⟩

theorem of_error {e : ε} {y : Except ε β} (h : Concurs E R (.error e) y) (he : ¬E e) :
    y = .error e := by
  cases h with
  | error e => rfl
  | excused y hexcused => exact absurd hexcused he

theorem cases_of_strict {x : Except ε α} {y : Except ε β} (h : Concurs E R x y)
    (hE : ∀ e, ¬E e) :
    (∃ e, x = .error e ∧ y = .error e) ∨ ∃ a b, x = .ok a ∧ y = .ok b ∧ R a b := by
  cases h with
  | ok hab => exact .inr ⟨_, _, rfl, rfl, hab⟩
  | error e => exact .inl ⟨e, rfl, rfl⟩
  | excused y he => exact absurd he (hE _)

end Concurs

namespace Frame

/-! ## Operations as sequences -/

variable {F : Frame}

theorem popWidth_eq (w : Width) :
    F.popWidth w = F.pop >>= fun x =>
      if x.1.width = w then .ok x else .error (.wrongWidth w x.1.width) := by
  unfold popWidth takeWidth pop
  cases F.stack with
  | nil => rfl
  | cons v rest =>
      change _ = if v.width = w then _ else _
      by_cases hw : v.width = w <;> simp [hw]

theorem popWidths_cons (w : Width) (ws : List Width) :
    F.popWidths (w :: ws) = F.popWidths ws >>= fun x =>
      x.2.popWidth w >>= fun y => .ok (y.1 :: x.1, y.2) := by
  simp only [popWidths]
  cases F.popWidths ws with
  | error e => rfl
  | ok x =>
      obtain ⟨vs, G⟩ := x
      change _ = G.popWidth w >>= _
      cases hpop : G.popWidth w <;> simp only [hpop] <;> rfl

theorem dropWidths_eq (ws : List Width) :
    F.dropWidths ws = F.popWidths ws >>= fun x => .ok x.2 := by
  unfold dropWidths
  cases F.popWidths ws <;> rfl

theorem pushAll_cons (v : Value) (vs : List Value) :
    F.pushAll (v :: vs) = F.push v >>= fun G => G.pushAll vs := by
  simp only [pushAll]
  cases F.push v <;> rfl

theorem readWidth_eq (k : Nat) (w : Width) :
    F.readWidth k w = F.readLocal k >>= fun v =>
      if v.width = w then .ok v else .error (.wrongWidth w v.width) := by
  unfold readWidth
  cases F.readLocal k <;> rfl

end Frame

def TakenOff {α : Type} (V : α → α → Prop) (ρ : Frame → Frame → Prop) (x y : α × Frame) : Prop :=
  V x.1 y.1 ∧ ρ x.2 y.2

def Insn.written? {τ : Type} : Insn τ → Option Nat
  | store _ slot | increment slot _ => some slot
  | _ => none

/-- The operations that instructions are made of, writes apart, do the same on related frames. -/
structure ParallelStacks (E : FrameError → Prop) (V : Value → Value → Prop)
    (ρ : Frame → Frame → Prop) : Prop where
  width : ∀ {a b}, V a b → a.width = b.width
  push : ∀ {F G a b}, ρ F G → V a b → Concurs E ρ (F.push a) (G.push b)
  pop : ∀ {F G}, ρ F G → Concurs E (TakenOff V ρ) F.pop G.pop
  read : ∀ {F G}, ρ F G → ∀ k, Concurs E V (F.readLocal k) (G.readLocal k)
  unresolved : ∀ w, V (.unresolved w) (.unresolved w)
  const : ∀ c, V (.const c) (.const c)
  ref : ∀ className, V (.ref className) (.ref className)
  fold₁ : ∀ {f w a b}, (∀ c d, f c = some d → d.width = w) → V a b →
    V (.ofFold (a.fold₁ f) w) (.ofFold (b.fold₁ f) w)
  fold₂ : ∀ {f w a b a' b'}, (∀ c c' d, f c c' = some d → d.width = w) → V a b → V a' b' →
    V (.ofFold (a.fold₂ f a') w) (.ofFold (b.fold₂ f b') w)

structure Parallel (E : FrameError → Prop) (V : Value → Value → Prop)
    (ρ : Frame → Frame → Prop) : Prop extends ParallelStacks E V ρ where
  write : ∀ {F G a b}, ρ F G → V a b → ∀ k, Concurs E ρ (F.writeLocal k a) (G.writeLocal k b)

namespace ParallelStacks

variable {E : FrameError → Prop} {V : Value → Value → Prop} {ρ : Frame → Frame → Prop}
  {F G : Frame}

/-! ## Operands -/

theorem popWidth (h : ParallelStacks E V ρ) (hFG : ρ F G) (w : Width) :
    Concurs E (TakenOff V ρ) (F.popWidth w) (G.popWidth w) := by
  rw [Frame.popWidth_eq, Frame.popWidth_eq]
  refine (h.pop hFG).bind fun x y hxy => ?_
  rw [h.width hxy.1]
  split
  · exact .ok hxy
  · exact .error _

theorem popWidths (h : ParallelStacks E V ρ) (hFG : ρ F G) (ws : List Width) :
    Concurs E (TakenOff (List.Forall₂ V) ρ) (F.popWidths ws) (G.popWidths ws) := by
  induction ws with
  | nil => exact .ok ⟨.nil, hFG⟩
  | cons w ws ih =>
      rw [Frame.popWidths_cons, Frame.popWidths_cons]
      refine ih.bind fun x y ⟨hargs, hrest⟩ => ?_
      exact (h.popWidth hrest w).bind fun a b ⟨hab, hrest⟩ => .ok ⟨.cons hab hargs, hrest⟩

theorem dropWidths (h : ParallelStacks E V ρ) (hFG : ρ F G) (ws : List Width) :
    Concurs E ρ (F.dropWidths ws) (G.dropWidths ws) := by
  rw [Frame.dropWidths_eq, Frame.dropWidths_eq]
  exact (h.popWidths hFG ws).bind fun _ _ hrest => .ok hrest.2

private theorem pushAll (h : ParallelStacks E V ρ) {vs us : List Value} (hvs : List.Forall₂ V vs us)
    (hFG : ρ F G) : Concurs E ρ (F.pushAll vs) (G.pushAll us) := by
  induction hvs generalizing F G with
  | nil => exact .ok hFG
  | cons hab _ ih =>
      rw [Frame.pushAll_cons, Frame.pushAll_cons]
      exact (h.push hFG hab).bind fun _ _ hFG => ih hFG

theorem pushResult (h : ParallelStacks E V ρ) (hFG : ρ F G) {x y : Option Value}
    (hxy : Option.Rel V x y) : Concurs E ρ (F.pushResult x) (G.pushResult y) := by
  cases hxy with
  | none => exact .ok hFG
  | some hab => exact h.push hFG hab

private theorem readWidth (h : ParallelStacks E V ρ) (hFG : ρ F G) (k : Nat) (w : Width) :
    Concurs E V (F.readWidth k w) (G.readWidth k w) := by
  rw [Frame.readWidth_eq, Frame.readWidth_eq]
  refine (h.read hFG k).bind fun a b hab => ?_
  rw [h.width hab]
  split
  · exact .ok hab
  · exact .error _

private theorem unresolvedResult (h : ParallelStacks E V ρ) (m : MethodRef) :
    Option.Rel V m.unresolvedResult m.unresolvedResult := by
  unfold MethodRef.unresolvedResult
  cases m.resultWidth? with
  | none => exact .none
  | some w => exact .some (h.unresolved w)

/-! ## Instructions -/

private theorem stackOp (h : ParallelStacks E V ρ) (hFG : ρ F G) (op : StackOp) :
    Concurs E ρ (op.effect F) (op.effect G) := by
  cases op with
  | pop => exact (h.popWidth hFG _).bind fun _ _ hFG => .ok hFG.2
  | pop2 =>
      refine (h.pop hFG).bind fun ⟨a, F⟩ ⟨b, G⟩ ⟨hab, hFG⟩ => ?_
      simp only [h.width hab]
      cases b.width with
      | two => exact .ok hFG
      | one => exact (h.popWidth hFG _).bind fun _ _ hFG => .ok hFG.2
  | dup =>
      refine (h.popWidth hFG _).bind fun _ _ ⟨h₁, hFG⟩ => ?_
      exact h.pushAll (.cons h₁ (.cons h₁ .nil)) hFG
  | dupX1 =>
      refine (h.popWidth hFG _).bind fun _ _ ⟨h₁, hFG⟩ => ?_
      refine (h.popWidth hFG _).bind fun _ _ ⟨h₂, hFG⟩ => ?_
      exact h.pushAll (.cons h₁ (.cons h₂ (.cons h₁ .nil))) hFG
  | dupX2 =>
      refine (h.popWidth hFG _).bind fun _ _ ⟨h₁, hFG⟩ => ?_
      refine (h.pop hFG).bind fun ⟨a, F⟩ ⟨b, G⟩ ⟨h₂, hFG⟩ => ?_
      simp only [h.width h₂]
      cases b.width with
      | two => exact h.pushAll (.cons h₁ (.cons h₂ (.cons h₁ .nil))) hFG
      | one =>
          refine (h.popWidth hFG _).bind fun _ _ ⟨h₃, hFG⟩ => ?_
          exact h.pushAll (.cons h₁ (.cons h₃ (.cons h₂ (.cons h₁ .nil)))) hFG
  | dup2 =>
      refine (h.pop hFG).bind fun ⟨a, F⟩ ⟨b, G⟩ ⟨h₁, hFG⟩ => ?_
      simp only [h.width h₁]
      cases b.width with
      | two => exact h.pushAll (.cons h₁ (.cons h₁ .nil)) hFG
      | one =>
          refine (h.popWidth hFG _).bind fun _ _ ⟨h₂, hFG⟩ => ?_
          exact h.pushAll (.cons h₂ (.cons h₁ (.cons h₂ (.cons h₁ .nil)))) hFG
  | dup2X1 =>
      refine (h.pop hFG).bind fun ⟨a, F⟩ ⟨b, G⟩ ⟨h₁, hFG⟩ => ?_
      refine (h.popWidth hFG _).bind fun _ _ ⟨h₂, hFG⟩ => ?_
      simp only [h.width h₁]
      cases b.width with
      | two => exact h.pushAll (.cons h₁ (.cons h₂ (.cons h₁ .nil))) hFG
      | one =>
          refine (h.popWidth hFG _).bind fun _ _ ⟨h₃, hFG⟩ => ?_
          exact h.pushAll (.cons h₂ (.cons h₁ (.cons h₃ (.cons h₂ (.cons h₁ .nil))))) hFG
  | dup2X2 =>
      refine (h.pop hFG).bind fun ⟨a, F⟩ ⟨b, G⟩ ⟨h₁, hFG⟩ => ?_
      simp only [h.width h₁]
      cases b.width with
      | two =>
          refine (h.pop hFG).bind fun ⟨a', F⟩ ⟨b', G⟩ ⟨h₂, hFG⟩ => ?_
          simp only [h.width h₂]
          cases b'.width with
          | two => exact h.pushAll (.cons h₁ (.cons h₂ (.cons h₁ .nil))) hFG
          | one =>
              refine (h.popWidth hFG _).bind fun _ _ ⟨h₃, hFG⟩ => ?_
              exact h.pushAll (.cons h₁ (.cons h₃ (.cons h₂ (.cons h₁ .nil)))) hFG
      | one =>
          refine (h.popWidth hFG _).bind fun _ _ ⟨h₂, hFG⟩ => ?_
          refine (h.pop hFG).bind fun ⟨a', F⟩ ⟨b', G⟩ ⟨h₃, hFG⟩ => ?_
          simp only [h.width h₃]
          cases b'.width with
          | two => exact h.pushAll (.cons h₂ (.cons h₁ (.cons h₃ (.cons h₂ (.cons h₁ .nil))))) hFG
          | one =>
              refine (h.popWidth hFG _).bind fun _ _ ⟨h₄, hFG⟩ => ?_
              exact h.pushAll
                (.cons h₂ (.cons h₁ (.cons h₄ (.cons h₃ (.cons h₂ (.cons h₁ .nil)))))) hFG
  | swap =>
      refine (h.popWidth hFG _).bind fun _ _ ⟨h₁, hFG⟩ => ?_
      refine (h.popWidth hFG _).bind fun _ _ ⟨h₂, hFG⟩ => ?_
      exact h.pushAll (.cons h₁ (.cons h₂ .nil)) hFG

private theorem fieldAccess (h : ParallelStacks E V ρ) (hFG : ρ F G) (access : FieldAccess)
    (f : FieldRef) :
    Concurs E ρ (access.effect f F) (access.effect f G) := by
  cases access with
  | getStatic => exact h.push hFG (h.unresolved _)
  | putStatic => exact h.dropWidths hFG _
  | getField => exact (h.dropWidths hFG _).bind fun _ _ hFG => h.push hFG (h.unresolved _)
  | putField => exact h.dropWidths hFG _

private theorem invokeKind (h : ParallelStacks E V ρ) (hFG : ρ F G) (kind : InvokeKind)
    (m : MethodRef) :
    Concurs E ρ (kind.effect m F) (kind.effect m G) := by
  cases kind <;>
    exact (h.dropWidths hFG _).bind fun _ _ hFG => h.pushResult hFG (h.unresolvedResult m)

variable {τ : Type}

theorem effect (h : ParallelStacks E V ρ) (hFG : ρ F G) (insn : Insn τ)
    (hwrite : ∀ slot, insn.written? = some slot → Concurs E ρ (insn.effect F) (insn.effect G))
    (htest : ∀ className, insn = .instanceOf className →
      Concurs E ρ (insn.effect F) (insn.effect G)) :
    Concurs E ρ (insn.effect F) (insn.effect G) := by
  cases insn with
  | nop | jump _ => exact .ok hFG
  | const c => exact h.push hFG (h.const c)
  | load kind slot => exact (h.readWidth hFG slot _).bind fun _ _ hab => h.push hFG hab
  | store _ slot | increment slot _ => exact hwrite slot rfl
  | binary kind op =>
      refine (h.popWidth hFG _).bind fun _ _ ⟨h₁, hFG⟩ => ?_
      refine (h.popWidth hFG _).bind fun _ _ ⟨h₂, hFG⟩ => ?_
      refine h.push hFG (h.fold₂ (fun c c' d hd => ?_) h₂ h₁)
      exact Const.width_of_kind (Const.binary_kind hd)
  | negate kind =>
      refine (h.popWidth hFG _).bind fun _ _ ⟨hab, hFG⟩ => ?_
      refine h.push hFG (h.fold₁ (fun c d hd => ?_) hab)
      exact Const.width_of_kind (Const.negate_kind hd)
  | convert source target =>
      refine (h.popWidth hFG _).bind fun _ _ ⟨hab, hFG⟩ => ?_
      refine h.push hFG (h.fold₁ (fun c d hd => ?_) hab)
      exact Const.width_of_kind (Const.convert_kind hd)
  | narrow target =>
      refine (h.popWidth hFG _).bind fun _ _ ⟨hab, hFG⟩ => ?_
      refine h.push hFG (h.fold₁ (fun c d hd => ?_) hab)
      exact Const.width_of_kind (Const.narrow_kind hd)
  | compare op =>
      refine (h.popWidth hFG _).bind fun _ _ ⟨h₁, hFG⟩ => ?_
      refine (h.popWidth hFG _).bind fun _ _ ⟨h₂, hFG⟩ => ?_
      refine h.push hFG (h.fold₂ (fun c c' d hd => ?_) h₂ h₁)
      exact Const.width_of_kind (Const.compare_kind hd)
  | stack op => exact h.stackOp hFG op
  | branch _ _ | switch _ _ | throw | monitorEnter | monitorExit | branchCompare _ _ _
  | arrayStore _ => exact h.dropWidths hFG _
  | ret kind =>
      cases kind with
      | none => exact .ok hFG
      | some kind => exact h.dropWidths hFG _
  | field access f => exact h.fieldAccess hFG access f
  | invoke kind m => exact h.invokeKind hFG kind m
  | new className => exact h.push hFG (h.ref className)
  | newArray _ | newMultiArray _ _ =>
      exact (h.dropWidths hFG _).bind fun _ _ hFG => h.push hFG (h.ref _)
  | arrayLength | arrayLoad _ =>
      exact (h.dropWidths hFG _).bind fun _ _ hFG => h.push hFG (h.unresolved _)
  | checkCast _ => exact (h.popWidth hFG _).bind fun _ _ ⟨hab, hFG⟩ => h.push hFG hab
  | instanceOf className => exact htest className rfl

theorem instanceOf (h : ParallelStacks E V ρ)
    (htest : ∀ {a b} className, V a b → V (a.instanceTest className) (b.instanceTest className))
    (hFG : ρ F G) (className : String) :
    Concurs E ρ ((Insn.instanceOf className : Insn τ).effect F)
      ((Insn.instanceOf className : Insn τ).effect G) :=
  (h.popWidth hFG .one).bind fun _ _ ⟨hab, hFG⟩ => h.push hFG (htest className hab)

end ParallelStacks

namespace Parallel

variable {E : FrameError → Prop} {V : Value → Value → Prop} {ρ : Frame → Frame → Prop}
  {F G : Frame} {τ : Type}

private theorem effect_of_written (h : Parallel E V ρ) (hFG : ρ F G) (insn : Insn τ) {slot : Nat}
    (hslot : insn.written? = some slot) : Concurs E ρ (insn.effect F) (insn.effect G) := by
  cases insn with
  | store kind slot =>
      exact (h.popWidth hFG _).bind fun _ _ ⟨hab, hFG⟩ => h.write hFG hab slot
  | increment slot delta =>
      refine (h.readWidth hFG slot .one).bind fun _ _ hab => ?_
      refine h.write hFG (h.fold₁ (fun c d hd => ?_) hab) slot
      exact Const.width_of_kind (Const.binary_kind hd)
  | _ => cases hslot

theorem effect (h : Parallel E V ρ) (hFG : ρ F G) (insn : Insn τ)
    (htest : ∀ className, insn = .instanceOf className →
      Concurs E ρ (insn.effect F) (insn.effect G)) :
    Concurs E ρ (insn.effect F) (insn.effect G) :=
  h.toParallelStacks.effect hFG insn (fun _ => h.effect_of_written hFG insn) htest

/-- Every instruction, where class tests have related answers. -/
theorem effect_of_test (h : Parallel E V ρ)
    (htest : ∀ {a b} className, V a b → V (a.instanceTest className) (b.instanceTest className))
    (hFG : ρ F G) (insn : Insn τ) : Concurs E ρ (insn.effect F) (insn.effect G) := by
  refine h.effect hFG insn ?_
  rintro className rfl
  exact h.instanceOf htest hFG className

end Parallel

end FrameFlow
