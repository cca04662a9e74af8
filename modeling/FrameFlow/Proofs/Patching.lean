import FrameFlow.Proofs.Labels
import Mathlib.Data.List.Induction

/-!
# Filling in labels

Instructions can be put down before their labels have positions: targets are left open,
and a note is made of each place where labels are to be filled in.  At its place every
note finds an instruction of the kind it was made for, so filling in gives the same code
as resolving the instructions one by one, and it fails only for want of a label.  Either
way, assembled code is the emitted instructions in order with labels made positions.
-/

namespace FrameFlow

def Target.name? : Target → Option String
  | label name => some name
  | position _ => none

/-- A target that is left open is written as the first position. -/
def Insn.opened (insn : Insn Target) : Insn Nat :=
  insn.map (Target.at fun _ => 0)

/-! ## Notes -/

inductive Fixup where
  | branch (position : Nat) (target : Target)
  | switch (position : Nat) (fallback : Target) (cases : List Target)
  deriving DecidableEq, Repr

inductive PatchFault where
  | noBranch (position : Nat)
  | noSwitch (position : Nat)
  | lookup (cause : Error)
  deriving DecidableEq, Repr

def PatchFault.text : PatchFault → String
  | noBranch position => s!"No branch at position {position}"
  | noSwitch position => s!"No switch at position {position}"
  | lookup cause => cause.text

namespace Fixup

def jump? (position : Nat) : Insn Target → Option Fixup
  | .branch _ t | .branchCompare _ _ t | .jump t => some (branch position t)
  | .switch fallback cases => some (switch position fallback (cases.map Prod.snd))
  | _ => none

def of? (position : Nat) (insn : Insn Target) : Option Fixup :=
  if insn.targets.all fun t => t.name?.isNone then none else jump? position insn

def fillBranch (target : Nat) : Insn Nat → Option (Insn Nat)
  | .branch condition _ => some (.branch condition target)
  | .branchCompare kind condition _ => some (.branchCompare kind condition target)
  | .jump _ => some (.jump target)
  | _ => none

def fillCases : List (Int32 × Nat) → List Nat → List (Int32 × Nat)
  | x :: cases, t :: targets => (x.1, t) :: fillCases cases targets
  | cases, _ => cases

def fillSwitch (fallback : Nat) (targets : List Nat) : Insn Nat → Option (Insn Nat)
  | .switch _ cases => some (.switch fallback (fillCases cases targets))
  | _ => none

def fillAt (code : List (Insn Nat)) (position : Nat) (fill : Insn Nat → Option (Insn Nat))
    (misfit : PatchFault) : Except PatchFault (List (Insn Nat)) :=
  match code[position]?.bind fill with
  | some insn => .ok (code.set position insn)
  | none => .error misfit

def apply (lookup : Target → Except Error Nat) (code : List (Insn Nat)) :
    Fixup → Except PatchFault (List (Insn Nat))
  | branch position t => do
      let target ← (lookup t).mapError .lookup
      fillAt code position (fillBranch target) (.noBranch position)
  | switch position fallback cases => do
      let target ← (lookup fallback).mapError .lookup
      let targets ← (cases.mapM lookup).mapError .lookup
      fillAt code position (fillSwitch target targets) (.noSwitch position)

end Fixup

/-- Code with open targets, and the notes on it in the order of the code. -/
structure Sheet where
  code : List (Insn Nat)
  fixups : List Fixup
  deriving DecidableEq, Repr

namespace Sheet

def emit (s : Sheet) (insn : Insn Target) : Sheet :=
  ⟨s.code ++ [insn.opened], s.fixups ++ (Fixup.of? s.code.length insn).toList⟩

def written (insns : List (Insn Target)) : Sheet :=
  insns.foldl emit ⟨[], []⟩

def patch (lookup : Target → Except Error Nat) (s : Sheet) :
    Except PatchFault (List (Insn Nat)) :=
  s.fixups.foldlM (Fixup.apply lookup) s.code

end Sheet

/-! ## One instruction -/

namespace Fixup

variable {lookup : Target → Except Error Nat} {code : List (Insn Nat)} {position : Nat}

private theorem fillAt_eq {insn filled : Insn Nat} {fill : Insn Nat → Option (Insn Nat)}
    (hat : code[position]? = some insn) (hfill : fill insn = some filled) (misfit : PatchFault) :
    fillAt code position fill misfit = .ok (code.set position filled) := by
  simp [fillAt, hat, hfill]

private theorem resolveCases_eq_fill (cases : List (Int32 × Target)) :
    Insn.resolveCases lookup cases = ((cases.map Prod.snd).mapM lookup).map
      (fillCases (cases.map fun x => (x.1, x.2.at fun _ => 0))) := by
  induction cases with
  | nil => rfl
  | cons x rest ih =>
      rw [List.map_cons, List.map_cons, List.mapM_cons]
      simp only [Insn.resolveCases, ih]
      cases lookup x.2 with
      | error e => rfl
      | ok u => cases (rest.map Prod.snd).mapM lookup <;> rfl

private theorem resolve_eq_opened (hlookup : ∀ i, lookup (.position i) = .ok i) {insn : Insn Target}
    (hplain : ∀ t ∈ insn.targets, t.name? = none) : insn.resolve lookup = .ok insn.opened := by
  refine Insn.resolve_eq_map fun t ht => ?_
  cases t with
  | label name => cases hplain _ ht
  | position i => exact hlookup i

private theorem apply_branch {insn : Insn Nat} {build : Nat → Insn Nat}
    (hat : code[position]? = some insn) (hfill : ∀ n, fillBranch n insn = some (build n))
    (t : Target) :
    apply lookup code (branch position t) =
      (((lookup t).map build).map (code.set position)).mapError .lookup := by
  simp only [apply]
  cases lookup t with
  | error e => rfl
  | ok n => exact fillAt_eq hat (hfill n) _

private theorem apply_switch {fallback : Target} {cases : List (Int32 × Target)}
    (hat : code[position]? = some (Insn.switch fallback cases).opened) :
    apply lookup code (switch position fallback (cases.map Prod.snd)) =
      (((Insn.switch fallback cases).resolve lookup).map (code.set position)).mapError .lookup := by
  simp only [apply, Insn.resolve, resolveCases_eq_fill]
  cases lookup fallback with
  | error e => rfl
  | ok u =>
      cases (cases.map Prod.snd).mapM lookup with
      | error e => rfl
      | ok us =>
          have hfill : fillSwitch u us (Insn.switch fallback cases).opened =
              some (.switch u (fillCases (cases.map fun x => (x.1, x.2.at fun _ => 0)) us)) :=
            rfl
          exact fillAt_eq hat hfill _

/-- A note does to its place what resolving does to the instruction. -/
theorem apply_of (hlookup : ∀ i, lookup (.position i) = .ok i) {insn : Insn Target}
    (hat : code[position]? = some insn.opened) :
    (of? position insn).toList.foldlM (apply lookup) code =
      ((insn.resolve lookup).map (code.set position)).mapError .lookup := by
  by_cases hplain : ∀ t ∈ insn.targets, t.name? = none
  · -- nothing is left open, so nothing has to be noted
    have hnone : of? position insn = none := by
      rw [of?, if_pos (by simpa using hplain)]
    rw [hnone, resolve_eq_opened hlookup hplain]
    obtain ⟨hlt, hopened⟩ := List.getElem?_eq_some_iff.1 hat
    simp only [Option.toList_none, List.foldlM_nil, Except.map, Except.mapError, ← hopened,
      List.set_getElem_self]
    rfl
  · rw [of?, if_neg (by simpa using hplain)]
    cases insn with
    | branch _ t | branchCompare _ _ t | jump t =>
        simp only [jump?, Option.toList_some, List.foldlM_cons, List.foldlM_nil, bind_pure]
        exact apply_branch hat (fun _ => rfl) t
    | switch fallback cases =>
        simp only [jump?, Option.toList_some, List.foldlM_cons, List.foldlM_nil, bind_pure]
        exact apply_switch hat
    | _ => exact absurd (by simp [Insn.targets]) hplain

end Fixup

/-! ## All instructions -/

namespace Sheet

variable {lookup : Target → Except Error Nat}

def fixupsFrom (position : Nat) : List (Insn Target) → List Fixup
  | [] => []
  | insn :: rest => (Fixup.of? position insn).toList ++ fixupsFrom (position + 1) rest

private theorem fixupsFrom_concat (position : Nat) (insns : List (Insn Target))
    (insn : Insn Target) :
    fixupsFrom position (insns ++ [insn]) =
      fixupsFrom position insns ++ (Fixup.of? (position + insns.length) insn).toList := by
  induction insns generalizing position with
  | nil => simp [fixupsFrom]
  | cons first rest ih => simp [fixupsFrom, ih, Nat.add_assoc, Nat.add_comm 1]

private theorem written_eq (insns : List (Insn Target)) :
    written insns = ⟨insns.map Insn.opened, fixupsFrom 0 insns⟩ := by
  induction insns using List.reverseRecOn with
  | nil => rfl
  | append_singleton insns insn ih =>
      have hlast : written (insns ++ [insn]) = (written insns).emit insn := by
        simp [written]
      rw [hlast, ih, fixupsFrom_concat]
      simp [emit]

/-- Before each note the code is resolved as far as the notes have gone, and open from there on. -/
theorem foldlM_fixupsFrom (hlookup : ∀ i, lookup (.position i) = .ok i) (done : List (Insn Nat))
    (rest : List (Insn Target)) :
    (fixupsFrom done.length rest).foldlM (Fixup.apply lookup) (done ++ rest.map Insn.opened) =
      ((rest.mapM (Insn.resolve lookup)).map (done ++ ·)).mapError .lookup := by
  induction rest generalizing done with
  | nil => simp [fixupsFrom, Except.map, Except.mapError, pure, Except.pure]
  | cons insn rest ih =>
      have hat : (done ++ (insn :: rest).map Insn.opened)[done.length]? = some insn.opened := by
        simp
      rw [fixupsFrom, List.foldlM_append, Fixup.apply_of hlookup hat, List.mapM_cons]
      cases insn.resolve lookup with
      | error e => rfl
      | ok i =>
          have hset : (done ++ (insn :: rest).map Insn.opened).set done.length i =
              (done ++ [i]) ++ rest.map Insn.opened := by
            simp
          have hrest := ih (done ++ [i])
          rw [List.length_append, List.length_singleton] at hrest
          simp only [Except.map, Except.mapError, hset]
          refine Eq.trans hrest ?_
          cases rest.mapM (Insn.resolve lookup) with
          | error e => rfl
          | ok is => simp [Except.map, Except.mapError, bind, Except.bind, pure, Except.pure]

theorem patch_written (hlookup : ∀ i, lookup (.position i) = .ok i)
    (insns : List (Insn Target)) :
    (written insns).patch lookup = (insns.mapM (Insn.resolve lookup)).mapError .lookup := by
  have hall := foldlM_fixupsFrom hlookup [] insns
  rw [written_eq, patch]
  refine Eq.trans hall ?_
  cases insns.mapM (Insn.resolve lookup) <;> rfl

private theorem patch_written_ok (hlookup : ∀ i, lookup (.position i) = .ok i)
    {place : String → Nat} {insns : List (Insn Target)}
    (h : ∀ insn ∈ insns, ∀ t ∈ insn.targets, lookup t = .ok (t.at place)) :
    (written insns).patch lookup = .ok (insns.map (Insn.map (Target.at place))) := by
  have hresolve : insns.mapM (Insn.resolve lookup) =
      .ok (insns.map (Insn.map (Target.at place))) := by
    induction insns with
    | nil => rfl
    | cons insn insns ih =>
        rw [List.mapM_cons, Insn.resolve_eq_map (h insn List.mem_cons_self),
          ih fun i hi => h i (List.mem_cons_of_mem _ hi)]
        rfl
  rw [patch_written hlookup, hresolve]
  rfl

end Sheet

/-! ## Assembled code -/

/--
Assembled code is the emitted instructions in order, and the handlers are those
declared in order, with every label in them replaced by the number of
instructions emitted before it was bound.  The code is also what filling in gives,
by any table with the bound labels at these places.
-/
theorem assemble_places_labels {owner name descriptor : String} {stmts : List Stmt} {m : Method}
    (h : assemble owner name descriptor stmts = .ok m) :
    ∃ place : String → Nat,
      m.code.toList = (Stmt.emitted stmts).map (Insn.map (Target.at place)) ∧
      m.handlers = (Stmt.handlers stmts).map (Handler.map place) ∧
      (∀ insn ∈ Stmt.emitted stmts, ∀ label, .label label ∈ insn.targets →
        ∃ n, Stmt.Binds stmts label n) ∧
      (∀ handler ∈ Stmt.handlers stmts, ∀ label ∈ handler.labels, ∃ n, Stmt.Binds stmts label n) ∧
      (∀ label n, Stmt.Binds stmts label n → place label = n ∧ n ≤ m.code.size) ∧
      ∀ lookup : Target → Except Error Nat, (∀ i, lookup (.position i) = .ok i) →
        (∀ label n, Stmt.Binds stmts label n → lookup (.label label) = .ok n) →
        (Sheet.written (Stmt.emitted stmts)).patch lookup = .ok m.code.toList := by
  unfold assemble at h
  split at h
  · rename_i d hstart
    have hrecords := (Draft.start_records hstart).addAll stmts
    rw [List.nil_append] at hrecords
    obtain ⟨hproblem, hcode, hhandlers, _⟩ := Draft.finish_ok h
    rw [hrecords.code] at hcode
    rw [hrecords.handlers] at hhandlers
    have hinsns := eq_map_of_forall₂ hcode fun _ _ => Draft.resolve_ok
    have hbound : ∀ insn ∈ Stmt.emitted stmts, ∀ label, .label label ∈ insn.targets →
        ∃ n, Stmt.Binds stmts label n := by
      intro insn hinsn label htarget
      obtain ⟨i, hi⟩ := exists_of_forall₂ hcode hinsn
      obtain ⟨n, hn⟩ := Insn.exists_of_resolve hi htarget
      exact ⟨n, hrecords.bound label n (Draft.labelPosition_ok.1 hn)⟩
    have hplace : ∀ label n, Stmt.Binds stmts label n → (d.addAll stmts).place label = n :=
      fun label n hbinds => Draft.place_eq (hrecords.binds hproblem label n hbinds)
    refine ⟨(d.addAll stmts).place, hinsns, ?_, hbound, ?_, ?_, ?_⟩
    · exact eq_map_of_forall₂ hhandlers fun _ _ hresolved => (Draft.resolveHandler_ok hresolved).1
    · intro handler hhandler label hlabel
      obtain ⟨resolved, hresolved⟩ := exists_of_forall₂ hhandlers hhandler
      obtain ⟨n, hn⟩ := (Draft.resolveHandler_ok hresolved).2 label hlabel
      exact ⟨n, hrecords.bound label n hn⟩
    · intro label n hbinds
      refine ⟨hplace label n hbinds, ?_⟩
      have hle := hbinds.le
      rwa [hcode.length_eq, Array.length_toList] at hle
    · intro lookup hposition hlabel
      rw [hinsns]
      refine Sheet.patch_written_ok hposition fun insn hinsn t ht => ?_
      cases t with
      | position i => exact hposition i
      | label name =>
          obtain ⟨n, hn⟩ := hbound insn hinsn name ht
          rw [hlabel name n hn, Target.at, hplace name n hn]
  · cases h

def workerStmts : List Stmt :=
  [.guard ⟨"body", "done", "failed", some "java/io/IOException"⟩,
    .emit (.jump (.label "test")),
    .label "body",
    .label "again",
    .invoke .static "Task" "run" "()V",
    .label "test",
    .emit (.load .int 0),
    .emit (.switch (.label "body") [(7, .label "done"), (3, .label "again")]),
    .label "failed",
    .emit (.stack .pop),
    .emit (.jump (.position 2)),
    .label "done",
    .emit (.ret none)]

def worker : Method where
  owner := "Task"
  name := "work"
  type := ⟨[.base .int], none⟩
  access := .publicStatic
  maxLocals := 1
  maxStack := none
  code := #[.jump 2, .invoke .static ⟨"Task", "run", ⟨[], none⟩⟩, .load .int 0,
    .switch 1 [(7, 6), (3, 1)], .stack .pop, .jump 2, .ret none]
  handlers := [⟨1, 6, 4, some "java/io/IOException"⟩]

theorem worker_labels_placed :
    assemble "Task" "work" "(I)V" workerStmts = .ok worker ∧
      ∃ place : String → Nat, place "body" = 1 ∧ place "again" = 1 ∧ place "done" = 6 ∧
        worker.code.toList = (Stmt.emitted workerStmts).map (Insn.map (Target.at place)) ∧
        worker.handlers = (Stmt.handlers workerStmts).map (Handler.map place) ∧
        (Sheet.written (Stmt.emitted workerStmts)).patch (fun t => .ok (t.at place)) =
          .ok worker.code.toList := by
  have hworker : assemble "Task" "work" "(I)V" workerStmts = .ok worker := by decide +kernel
  obtain ⟨place, hcode, hhandlers, _, _, hplace, hpatch⟩ := assemble_places_labels hworker
  have hbody : Stmt.Binds workerStmts "body" 1 := ⟨workerStmts.take 2, _, rfl, rfl⟩
  have hagain : Stmt.Binds workerStmts "again" 1 := ⟨workerStmts.take 3, _, rfl, rfl⟩
  have hdone : Stmt.Binds workerStmts "done" 6 := ⟨workerStmts.take 11, _, rfl, by decide +kernel⟩
  have hfilled := hpatch (fun t => .ok (t.at place)) (fun _ => rfl) fun label n hbinds =>
    congrArg Except.ok (hplace label n hbinds).1
  exact ⟨hworker, place, (hplace _ _ hbody).1, (hplace _ _ hagain).1, (hplace _ _ hdone).1, hcode,
    hhandlers, hfilled⟩

end FrameFlow
