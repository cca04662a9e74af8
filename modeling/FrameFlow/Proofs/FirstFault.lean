import FrameFlow.Proofs.LocalTables
import FrameFlow.Proofs.Patching

/-!
# The first fault is reported

The faults of a list of statements stand in one order: what is wrong with a statement,
then labels that are used and never bound, and then the size of the local table.
Finishing a method reports the first of them, and a method without faults is finished.
-/

namespace FrameFlow

/-! ## Reports -/

section Reports

variable {ε α β : Type} {faults later : List ε} {x : Except ε α}

/-- A computation fails with the first of the faults, and succeeds if there are none. -/
def Reports (faults : List ε) (x : Except ε α) : Prop :=
  match faults with
  | [] => ∃ a, x = .ok a
  | e :: _ => x = .error e

namespace Reports

theorem ok (a : α) : Reports ([] : List ε) (.ok a) :=
  ⟨a, rfl⟩

theorem bind (hx : Reports faults x) {f : α → Except ε β}
    (hf : ∀ a, x = .ok a → Reports later (f a)) : Reports (faults ++ later) (x >>= f) := by
  cases faults with
  | nil =>
      obtain ⟨a, rfl⟩ := hx
      exact hf a rfl
  | cons e _ =>
      obtain rfl : x = .error e := hx
      rfl

theorem map (hx : Reports faults x) (f : α → β) : Reports faults (x.map f) := by
  cases faults with
  | nil =>
      obtain ⟨a, rfl⟩ := hx
      exact ok (f a)
  | cons e _ =>
      obtain rfl : x = .error e := hx
      rfl

private theorem mapM {l : List α} {f : α → Except ε β} {found : α → List ε}
    (h : ∀ a ∈ l, Reports (found a) (f a)) : Reports (l.flatMap found) (l.mapM f) := by
  induction l with
  | nil => exact ok []
  | cons a l ih =>
      rw [List.mapM_cons, List.flatMap_cons]
      refine (h a (by simp)).bind fun b _ => ?_
      rw [← List.append_nil (l.flatMap found)]
      exact (ih fun a ha => h a (by simp [ha])).bind fun bs _ => ok (b :: bs)

end Reports

end Reports

/-! ## The faults of statements -/

namespace Stmt

def problem? (before : List Stmt) : Stmt → Option Error
  | label name => if label name ∈ before then some (.duplicateLabel name) else none
  | field _ owner name descriptor =>
      match FieldRef.parse owner name descriptor with
      | .ok _ => none
      | .error e => some (.descriptor e)
  | invoke _ owner name descriptor =>
      match MethodRef.parse owner name descriptor with
      | .ok _ => none
      | .error e => some (.descriptor e)
  | guard _ | access _ | maxLocals _ | maxStack _ | emit _ => none

def problemsAfter (before : List Stmt) : List Stmt → List Error
  | [] => []
  | stmt :: rest => (stmt.problem? before).toList ++ problemsAfter (before ++ [stmt]) rest

def problems (stmts : List Stmt) : List Error :=
  problemsAfter [] stmts

def usedLabels (stmts : List Stmt) : List String :=
  (emitted stmts).flatMap (fun insn => insn.targets.filterMap Target.name?) ++
    (handlers stmts).flatMap Handler.labels

def unboundLabels (stmts : List Stmt) : List String :=
  (usedLabels stmts).filter fun name => label name ∉ stmts

def flags? : Stmt → Option Access
  | access flags => some flags
  | _ => none

def count? : Stmt → Option Nat
  | maxLocals count => some count
  | _ => none

def flags (stmts : List Stmt) : Access :=
  (stmts.filterMap flags?).getLast?.getD .publicStatic

def declaredLocals (stmts : List Stmt) : Option Nat :=
  (stmts.filterMap count?).getLast?

def argumentSlots (type : MethodType) (stmts : List Stmt) : Nat :=
  Method.receiverSlots (flags stmts) + type.paramSlots

/-- A declared table has to hold the arguments, and any other one must not be too large. -/
def tableFault? (owner name : String) (type : MethodType) (stmts : List Stmt) :
    Option Malformed :=
  match declaredLocals stmts with
  | some count =>
      if count < argumentSlots type stmts then
        some (.localsTooFew s!"{owner}.{name}{type.text}" count (argumentSlots type stmts))
      else none
  | none =>
      if argumentSlots type stmts ≤ 65535 ∧ (emitted stmts).all fun insn => insn.localSlots ≤ 65535
      then none
      else some (.localsTooMany name)

/-- Everything that is wrong, in the order in which it is reported. -/
def faults (owner name : String) (type : MethodType) (stmts : List Stmt) : List Error :=
  problems stmts ++ (unboundLabels stmts).map .undefinedLabel ++
    ((tableFault? owner name type stmts).map .malformed).toList

private theorem problemsAfter_concat (before stmts : List Stmt) (stmt : Stmt) :
    problemsAfter before (stmts ++ [stmt]) =
      problemsAfter before stmts ++ (stmt.problem? (before ++ stmts)).toList := by
  induction stmts generalizing before with
  | nil => simp [problemsAfter]
  | cons first rest ih => simp [problemsAfter, ih]

private theorem problems_concat (stmts : List Stmt) (stmt : Stmt) :
    problems (stmts ++ [stmt]) = problems stmts ++ (stmt.problem? stmts).toList :=
  problemsAfter_concat [] stmts stmt

end Stmt

/-! ## What a draft has seen -/

namespace Draft

variable {stmts : List Stmt} {d : Draft} {owner name : String} {type : MethodType}

private theorem add_settings (d : Draft) (stmt : Stmt) :
    (d.add stmt).owner = d.owner ∧ (d.add stmt).name = d.name ∧ (d.add stmt).type = d.type ∧
      (d.add stmt).access = stmt.flags?.getD d.access ∧
      (d.add stmt).maxLocals = stmt.count?.or d.maxLocals := by
  cases stmt with
  | label name =>
      simp only [add]
      split <;> exact ⟨rfl, rfl, rfl, rfl, rfl⟩
  | guard _ | access _ | maxLocals _ | maxStack _ | emit _ => exact ⟨rfl, rfl, rfl, rfl, rfl⟩
  | field kind owner name descriptor =>
      simp only [add]
      cases FieldRef.parse owner name descriptor <;> exact ⟨rfl, rfl, rfl, rfl, rfl⟩
  | invoke kind owner name descriptor =>
      simp only [add]
      cases MethodRef.parse owner name descriptor <;> exact ⟨rfl, rfl, rfl, rfl, rfl⟩

private theorem report_problem (d : Draft) (e : Error) :
    (d.report e).problem = d.problem.or (some e) := by
  cases hproblem : d.problem <;> simp [report, hproblem]

private theorem add_problem_eq
    (hbound : ∀ label, (d.labels.lookup label).isSome ↔ .label label ∈ stmts)
    (stmt : Stmt) : (d.add stmt).problem = d.problem.or (stmt.problem? stmts) := by
  cases stmt with
  | label name =>
      simp only [add, Stmt.problem?, hbound name]
      split
      · exact report_problem d _
      · simp
  | guard _ | access _ | maxLocals _ | maxStack _ | emit _ =>
      simp [add, emit, Stmt.problem?]
  | field kind owner name descriptor =>
      simp only [add, Stmt.problem?]
      cases FieldRef.parse owner name descriptor with
      | ok f => simp [emitParsed, emit]
      | error e => exact report_problem d _
  | invoke kind owner name descriptor =>
      simp only [add, Stmt.problem?]
      cases MethodRef.parse owner name descriptor with
      | ok f => simp [emitParsed, emit]
      | error e => exact report_problem d _

private theorem add_isBound (d : Draft) (stmt : Stmt) (label : String) :
    ((d.add stmt).labels.lookup label).isSome ↔
      (d.labels.lookup label).isSome ∨ stmt = .label label := by
  simp only [Option.isSome_iff_exists, add_lookup]
  constructor
  · rintro ⟨n, hold | ⟨_, hstmt, _⟩⟩
    · exact .inl ⟨n, hold⟩
    · exact .inr hstmt
  · rintro (⟨n, hold⟩ | hstmt)
    · exact ⟨n, .inl hold⟩
    · cases hold : d.labels.lookup label with
      | some n => exact ⟨n, .inl rfl⟩
      | none => exact ⟨d.code.size, .inr ⟨rfl, hstmt, rfl⟩⟩

structure Keeps (owner name : String) (type : MethodType) (stmts : List Stmt) (d : Draft) :
    Prop where
  owner : d.owner = owner
  name : d.name = name
  type : d.type = type
  access : d.access = Stmt.flags stmts
  maxLocals : d.maxLocals = Stmt.declaredLocals stmts
  bound : ∀ label, (d.labels.lookup label).isSome ↔ .label label ∈ stmts
  problem : d.problem = (Stmt.problems stmts).head?

private theorem Keeps.add (h : Keeps owner name type stmts d) (stmt : Stmt) :
    Keeps owner name type (stmts ++ [stmt]) (d.add stmt) := by
  obtain ⟨howner, hname, htype, haccess, hlocals⟩ := add_settings d stmt
  refine ⟨howner.trans h.owner, hname.trans h.name, htype.trans h.type, ?_, ?_, fun label => ?_, ?_⟩
  · rw [haccess, h.access, Stmt.flags, Stmt.flags, List.filterMap_append]
    cases hflags : stmt.flags? <;> simp [hflags]
  · rw [hlocals, h.maxLocals, Stmt.declaredLocals, Stmt.declaredLocals, List.filterMap_append]
    cases hcount : stmt.count? <;> simp [hcount]
  · rw [add_isBound, h.bound]
    simp [eq_comm]
  · rw [add_problem_eq h.bound, h.problem, Stmt.problems_concat, List.head?_append]
    cases stmt.problem? stmts <;> rfl

private theorem Keeps.addAll {before : List Stmt} (h : Keeps owner name type before d)
    (stmts : List Stmt) : Keeps owner name type (before ++ stmts) (d.addAll stmts) :=
  addAll_induct (fun stmt h => h.add stmt) h stmts

private theorem start_keeps {descriptor : String} (h : start owner name descriptor = .ok d) :
    Keeps owner name d.type [] d := by
  unfold start at h
  split at h
  · cases h
    exact ⟨rfl, rfl, rfl, rfl, rfl, by simp, rfl⟩
  · cases h

private theorem Keeps.argumentSlots (h : Keeps owner name type stmts d) :
    Method.receiverSlots d.access + d.type.paramSlots = Stmt.argumentSlots type stmts := by
  rw [h.access, h.type, Stmt.argumentSlots]

/-! ## Finishing -/

def missing (stmts : List Stmt) (label : String) : List Error :=
  if .label label ∈ stmts then [] else [.undefinedLabel label]

private theorem labelPosition_reports (h : Keeps owner name type stmts d) (label : String) :
    Reports (missing stmts label) (d.labelPosition label) := by
  have hbound := h.bound label
  unfold labelPosition missing
  cases hlookup : d.labels.lookup label with
  | none =>
      rw [if_neg (by simpa [hlookup] using hbound)]
      rfl
  | some n =>
      rw [if_pos (by simpa [hlookup] using hbound)]
      exact .ok n

private theorem targetPosition_reports (h : Keeps owner name type stmts d) (t : Target) :
    Reports (t.name?.toList.flatMap (missing stmts)) (d.targetPosition t) := by
  cases t with
  | label name => simpa [Target.name?, targetPosition] using labelPosition_reports h name
  | position index => exact .ok index

private theorem resolveHandler_reports (h : Keeps owner name type stmts d)
    (handler : Handler String) :
    Reports (handler.labels.flatMap (missing stmts)) (d.resolveHandler handler) := by
  simp only [Handler.labels, List.flatMap_cons, List.flatMap_nil]
  refine (labelPosition_reports h _).bind fun start _ => ?_
  refine (labelPosition_reports h _).bind fun stop _ => ?_
  exact (labelPosition_reports h _).bind fun entry _ => .ok _

end Draft

namespace Insn

variable {τ υ ε : Type} {f : τ → Except ε υ} {found : τ → List ε}

private theorem resolveCases_reports (h : ∀ t, Reports (found t) (f t)) (cases : List (Int32 × τ)) :
    Reports ((cases.map Prod.snd).flatMap found) (resolveCases f cases) := by
  induction cases with
  | nil => exact .ok []
  | cons x rest ih =>
      have hbind : resolveCases f (x :: rest) =
          f x.2 >>= fun u => (resolveCases f rest).map ((x.1, u) :: ·) := by
        simp only [resolveCases]
        cases f x.2 with
        | error e => rfl
        | ok u => cases resolveCases f rest <;> rfl
      rw [hbind, List.map_cons, List.flatMap_cons]
      exact (h x.2).bind fun u _ => ih.map _

private theorem resolve_reports (h : ∀ t, Reports (found t) (f t)) (insn : Insn τ) :
    Reports (insn.targets.flatMap found) (insn.resolve f) := by
  cases insn with
  | branch _ t | branchCompare _ _ t | jump t => simpa [targets, resolve] using (h t).map _
  | switch fallback cases =>
      have hbind : (switch fallback cases).resolve f =
          f fallback >>= fun u => (resolveCases f cases).map (switch u) := by
        simp only [resolve]
        cases f fallback <;> rfl
      rw [hbind, targets, List.flatMap_cons]
      exact (h fallback).bind fun u _ => (resolveCases_reports h cases).map _
  | _ => exact .ok _

end Insn

namespace Draft

variable {stmts : List Stmt} {d : Draft} {owner name : String} {type : MethodType}

private theorem missing_flatMap (stmts : List Stmt) (labels : List String) :
    labels.flatMap (missing stmts) =
      (labels.filter fun label => .label label ∉ stmts).map .undefinedLabel := by
  induction labels with
  | nil => rfl
  | cons label labels ih =>
      by_cases hbound : .label label ∈ stmts <;> simp [missing, hbound, ih]

private theorem code_reports (h : Keeps owner name type stmts d) (code : List (Insn Target)) :
    Reports
      ((code.flatMap fun insn => insn.targets.filterMap Target.name?).flatMap (missing stmts))
      (code.mapM (Insn.resolve d.targetPosition)) := by
  simp only [List.filterMap_eq_flatMap_toList, List.flatMap_assoc]
  exact Reports.mapM fun insn _ => insn.resolve_reports (targetPosition_reports h)

private theorem handlers_report (h : Keeps owner name type stmts d)
    (handlers : List (Handler String)) :
    Reports ((handlers.flatMap Handler.labels).flatMap (missing stmts))
      (handlers.mapM d.resolveHandler) := by
  rw [List.flatMap_assoc]
  exact Reports.mapM fun handler _ => resolveHandler_reports h handler

private theorem checked_of_fits {m : Method} (h : m.argumentSlots ≤ m.maxLocals) :
    m.checked = .ok m := by
  simp [Method.checked, Method.checkLocals, h]

private theorem checked_of_lt {m : Method} (h : m.maxLocals < m.argumentSlots) :
    m.checked = .error (.localsTooFew m.id m.maxLocals m.argumentSlots) := by
  simp [Method.checked, Method.checkLocals, Nat.not_le.2 h]

private theorem table_cases (h : Keeps owner name type stmts d) (hrecords : Records stmts d) :
    (Stmt.tableFault? owner name type stmts = none ∧
        ∃ count, d.localCount = .ok count ∧ Stmt.argumentSlots type stmts ≤ count) ∨
      (∃ count, Stmt.tableFault? owner name type stmts =
          some (.localsTooFew s!"{owner}.{name}{type.text}" count (Stmt.argumentSlots type stmts)) ∧
        d.localCount = .ok count ∧ count < Stmt.argumentSlots type stmts) ∨
      (Stmt.tableFault? owner name type stmts = some (.localsTooMany name) ∧
        d.localCount = .error (.malformed (.localsTooMany name))) := by
  have hneeded : d.neededLocals ≤ localCapacity ↔ Stmt.argumentSlots type stmts ≤ 65535 ∧
      (Stmt.emitted stmts).all fun insn => insn.localSlots ≤ 65535 := by
    simp only [neededLocals_le_iff, h.argumentSlots, localCapacity, List.all_eq_true,
      decide_eq_true_eq, ← hrecords.code, Array.mem_toList_iff]
  have hmax := h.maxLocals
  cases hdeclared : Stmt.declaredLocals stmts with
  | some count =>
      rw [hdeclared] at hmax
      by_cases hfew : count < Stmt.argumentSlots type stmts
      · exact .inr (.inl ⟨count, by simp [Stmt.tableFault?, hdeclared, hfew],
          by simp [localCount, hmax], hfew⟩)
      · exact .inl ⟨by simp [Stmt.tableFault?, hdeclared, hfew], count,
          by simp [localCount, hmax], Nat.not_lt.1 hfew⟩
  | none =>
      rw [hdeclared] at hmax
      by_cases hfits : d.neededLocals ≤ localCapacity
      · refine .inl ⟨?_, d.neededLocals, by simp [localCount, hmax, hfits], ?_⟩
        · simp only [Stmt.tableFault?, hdeclared, if_pos (hneeded.1 hfits)]
        · rw [← h.argumentSlots]
          exact (neededLocals_le_iff.1 (Nat.le_refl _)).1
      · refine .inr (.inr ⟨?_, by simp [localCount, hmax, hfits, h.name]⟩)
        simp only [Stmt.tableFault?, hdeclared, if_neg (hneeded.not.1 hfits)]

private theorem finish_reports (h : Keeps owner name type stmts d) (hrecords : Records stmts d) :
    Reports (Stmt.faults owner name type stmts) d.finish := by
  obtain rfl := h.owner
  obtain rfl := h.name
  obtain rfl := h.type
  unfold finish Stmt.faults
  rw [h.problem]
  cases hproblems : Stmt.problems stmts with
  | cons e rest => rfl
  | nil =>
      rw [List.nil_append, Stmt.unboundLabels, ← missing_flatMap, Stmt.usedLabels,
        List.flatMap_append, List.append_assoc]
      simp only [List.head?_nil]
      refine Reports.bind ?_ fun code _ => Reports.bind ?_ fun handlers _ => ?_
      · rw [Array.mapM_eq_mapM_toList, hrecords.code]
        exact (code_reports h _).map _
      · rw [hrecords.handlers]
        exact handlers_report h _
      · rcases table_cases h hrecords with ⟨hfault, count, hcount, hfits⟩ |
          ⟨count, hfault, hcount, hfew⟩ | ⟨hfault, hcount⟩
        · have hchecked := checked_of_fits (m := ⟨d.owner, d.name, d.type, d.access, count,
            d.maxStack, code, handlers⟩) (Nat.le_trans (Nat.le_of_eq h.argumentSlots) hfits)
          rw [hfault, hcount]
          refine (Reports.ok count).bind fun _ heq => ?_
          cases heq
          simp only [hchecked]
          exact .ok _
        · have hchecked := checked_of_lt (m := ⟨d.owner, d.name, d.type, d.access, count,
            d.maxStack, code, handlers⟩) (Nat.lt_of_lt_of_eq hfew h.argumentSlots.symm)
          rw [hfault, hcount]
          refine (Reports.ok count).bind fun _ heq => ?_
          cases heq
          simp only [hchecked]
          rw [Method.argumentSlots, h.argumentSlots]
          rfl
        · rw [hfault, hcount]
          rfl

end Draft

/--
For every list of statements, finishing reports the first problem met in a statement, or
else the first label that is looked up in vain, or else a local table that cannot be, and
it gives a method if there is none of these.  Filling in the labels of the emitted code
later comes to the same, and never finds another instruction where a jump was noted.
-/
theorem Draft.finish_reports_first {owner name descriptor : String} {d : Draft}
    (hstart : Draft.start owner name descriptor = .ok d) (stmts : List Stmt) :
    Reports (Stmt.faults owner name d.type stmts) (d.addAll stmts).finish ∧
    (Sheet.written (Stmt.emitted stmts)).patch (d.addAll stmts).targetPosition =
      ((d.addAll stmts).code.toList.mapM
        (Insn.resolve (d.addAll stmts).targetPosition)).mapError .lookup ∧
    ∀ position,
      (Sheet.written (Stmt.emitted stmts)).patch (d.addAll stmts).targetPosition ≠
        .error (.noBranch position) ∧
      (Sheet.written (Stmt.emitted stmts)).patch (d.addAll stmts).targetPosition ≠
        .error (.noSwitch position) := by
  have hkeeps := (start_keeps hstart).addAll stmts
  have hrecords := (start_records hstart).addAll stmts
  have hlookup : ∀ i, (d.addAll stmts).targetPosition (.position i) = .ok i := fun _ => rfl
  have hpatch := Sheet.patch_written hlookup (Stmt.emitted stmts)
  refine ⟨finish_reports hkeeps hrecords, ?_, fun position => ?_⟩
  · rw [hpatch, hrecords.code]
    rfl
  · rw [hpatch]
    cases (Stmt.emitted stmts).mapM (Insn.resolve (d.addAll stmts).targetPosition) with
    | ok code => exact ⟨nofun, nofun⟩
    | error e => exact ⟨nofun, nofun⟩

/-- Two statements are wrong, three labels are missing, and the table is too small. -/
def brokenStmts : List Stmt :=
  [.guard ⟨"top", "end", "top", none⟩,
    .emit (.switch (.label "none") [(1, .label "top"), (2, .label "lost")]),
    .label "top",
    .field .getStatic "Task" "count" "Q",
    .label "top",
    .emit (.jump (.position 0)),
    .maxLocals 0]

theorem brokenStmts_reported :
    ∃ d, Draft.start "Task" "run" "(I)V" = .ok d ∧
      Stmt.faults "Task" "run" d.type brokenStmts =
        [.descriptor ⟨"Q", .badLetter 'Q'⟩, .duplicateLabel "top", .undefinedLabel "none",
          .undefinedLabel "lost", .undefinedLabel "end",
          .malformed (.localsTooFew "Task.run(I)V" 0 1)] ∧
      (d.addAll brokenStmts).finish = .error (.descriptor ⟨"Q", .badLetter 'Q'⟩) ∧
      (d.addAll (brokenStmts.eraseIdx 4 |>.eraseIdx 3)).finish = .error (.undefinedLabel "none") ∧
      (∃ m, (d.addAll workerStmts).finish = .ok m) ∧
      ∀ position, (Sheet.written (Stmt.emitted workerStmts)).patch
        (d.addAll workerStmts).targetPosition ≠ .error (.noSwitch position) := by
  have hstart : Draft.start "Task" "run" "(I)V" =
      .ok { owner := "Task", name := "run", type := ⟨[.base .int], none⟩ } := by
    decide +kernel
  have hfaults : Stmt.faults "Task" "run" ⟨[.base .int], none⟩ brokenStmts =
      [.descriptor ⟨"Q", .badLetter 'Q'⟩, .duplicateLabel "top", .undefinedLabel "none",
        .undefinedLabel "lost", .undefinedLabel "end",
        .malformed (.localsTooFew "Task.run(I)V" 0 1)] := by
    decide +kernel
  have hlabels : Stmt.faults "Task" "run" ⟨[.base .int], none⟩
      (brokenStmts.eraseIdx 4 |>.eraseIdx 3) =
        [.undefinedLabel "none", .undefinedLabel "lost", .undefinedLabel "end",
          .malformed (.localsTooFew "Task.run(I)V" 0 1)] := by
    decide +kernel
  have hnone : Stmt.faults "Task" "run" ⟨[.base .int], none⟩ workerStmts = [] := by
    decide +kernel
  have hbroken := (Draft.finish_reports_first hstart brokenStmts).1
  have hmissing := (Draft.finish_reports_first hstart (brokenStmts.eraseIdx 4 |>.eraseIdx 3)).1
  obtain ⟨hworker, _, hpatch⟩ := Draft.finish_reports_first hstart workerStmts
  rw [hfaults] at hbroken
  rw [hlabels] at hmissing
  rw [hnone] at hworker
  exact ⟨_, hstart, hfaults, hbroken, hmissing, hworker, fun position => (hpatch position).2⟩

end FrameFlow
