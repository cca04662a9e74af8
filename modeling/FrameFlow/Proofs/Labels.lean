import FrameFlow.Assembly
import Mathlib.Data.List.Forall2

/-!
# Labels become positions

While statements are added, the draft records what has been emitted and where
labels were bound.  From that the whole code and all handlers are resolved at the
end: a label becomes the number of instructions that were emitted before it was
bound, whether that was before or after its use, and nothing else changes.
-/

namespace FrameFlow

/-! ## What statements say -/

namespace Stmt

def insn? : Stmt → Option (Insn Target)
  | emit insn => some insn
  | field kind owner name descriptor =>
      (FieldRef.parse owner name descriptor).toOption.map (.field kind)
  | invoke kind owner name descriptor =>
      (MethodRef.parse owner name descriptor).toOption.map (.invoke kind)
  | label _ | guard _ | access _ | maxLocals _ | maxStack _ => none

def handler? : Stmt → Option (Handler String)
  | guard handler => some handler
  | _ => none

def emitted (stmts : List Stmt) : List (Insn Target) :=
  stmts.filterMap insn?

def handlers (stmts : List Stmt) : List (Handler String) :=
  stmts.filterMap handler?

/-- The label is bound where `n` instructions have been emitted. -/
def Binds (stmts : List Stmt) (name : String) (n : Nat) : Prop :=
  ∃ before after, stmts = before ++ label name :: after ∧ (emitted before).length = n

private theorem binds_concat {stmts : List Stmt} {stmt : Stmt} {name : String} {n : Nat} :
    Binds (stmts ++ [stmt]) name n ↔
      Binds stmts name n ∨ (stmt = label name ∧ (emitted stmts).length = n) := by
  constructor
  · rintro ⟨before, after, heq, hn⟩
    rcases List.eq_nil_or_concat after with rfl | ⟨after, last, rfl⟩
    · obtain ⟨rfl, hlast⟩ := List.append_inj' heq rfl
      cases hlast
      exact .inr ⟨rfl, hn⟩
    · rw [List.concat_eq_append, ← List.cons_append, ← List.append_assoc] at heq
      obtain ⟨rfl, _⟩ := List.append_inj' heq rfl
      exact .inl ⟨before, after, rfl, hn⟩
  · rintro (⟨before, after, rfl, hn⟩ | ⟨rfl, hn⟩)
    · exact ⟨before, after ++ [stmt], by simp, hn⟩
    · exact ⟨stmts, [], rfl, hn⟩

theorem Binds.le {stmts : List Stmt} {name : String} {n : Nat} (h : Binds stmts name n) :
    n ≤ (emitted stmts).length := by
  obtain ⟨before, after, rfl, rfl⟩ := h
  simp [emitted]

end Stmt

/-! ## What a draft records -/

namespace Draft

private theorem add_code (d : Draft) (stmt : Stmt) :
    (d.add stmt).code.toList = d.code.toList ++ stmt.insn?.toList := by
  cases stmt with
  | label name =>
      simp only [add]
      split <;> simp [report, Stmt.insn?]
  | guard _ | access _ | maxLocals _ | maxStack _ => simp [add, Stmt.insn?]
  | emit insn => simp [add, emit, Stmt.insn?]
  | field kind owner name descriptor =>
      simp only [add, Stmt.insn?]
      cases FieldRef.parse owner name descriptor <;>
        simp [emitParsed, emit, report, Except.toOption]
  | invoke kind owner name descriptor =>
      simp only [add, Stmt.insn?]
      cases MethodRef.parse owner name descriptor <;>
        simp [emitParsed, emit, report, Except.toOption]

private theorem add_handlers (d : Draft) (stmt : Stmt) :
    (d.add stmt).handlers.toList = d.handlers.toList ++ stmt.handler?.toList := by
  cases stmt with
  | label name =>
      simp only [add]
      split <;> simp [report, Stmt.handler?]
  | guard _ | access _ | maxLocals _ | maxStack _ => simp [add, Stmt.handler?]
  | emit insn => simp [add, emit, Stmt.handler?]
  | field kind owner name descriptor =>
      simp only [add, Stmt.handler?]
      cases FieldRef.parse owner name descriptor <;> simp [emitParsed, emit, report]
  | invoke kind owner name descriptor =>
      simp only [add, Stmt.handler?]
      cases MethodRef.parse owner name descriptor <;> simp [emitParsed, emit, report]

private theorem add_labels (d : Draft) {stmt : Stmt} (h : ∀ name, stmt ≠ .label name) :
    (d.add stmt).labels = d.labels := by
  cases stmt with
  | label name => exact absurd rfl (h name)
  | guard _ | access _ | maxLocals _ | maxStack _ | emit _ => rfl
  | field kind owner name descriptor =>
      simp only [add]
      cases FieldRef.parse owner name descriptor <;> rfl
  | invoke kind owner name descriptor =>
      simp only [add]
      cases MethodRef.parse owner name descriptor <;> rfl

theorem add_lookup {d : Draft} {stmt : Stmt} {name : String} {n : Nat} :
    (d.add stmt).labels.lookup name = some n ↔
      d.labels.lookup name = some n ∨
        (d.labels.lookup name = none ∧ stmt = .label name ∧ d.code.size = n) := by
  by_cases hlabel : ∃ bound, stmt = .label bound
  · obtain ⟨bound, rfl⟩ := hlabel
    simp only [add, Stmt.label.injEq]
    split
    · rename_i hbound
      obtain ⟨k, hk⟩ := Option.isSome_iff_exists.1 hbound
      constructor
      · exact .inl
      · rintro (h | ⟨hnone, rfl, _⟩)
        · exact h
        · cases hnone.symm.trans hk
    · rw [List.lookup_append]
      cases hname : d.labels.lookup name with
      | some k => simp
      | none =>
          simp only [Option.none_or, List.lookup_cons, List.lookup_nil]
          by_cases hsame : name = bound
          · simp [hsame]
          · simp [beq_false_of_ne hsame, Ne.symm hsame]
  · rw [add_labels d (not_exists.1 hlabel)]
    simp [not_exists.1 hlabel name]

private theorem add_problem {d : Draft} {stmt : Stmt} (h : (d.add stmt).problem = none) :
    d.problem = none ∧ ∀ name, stmt = .label name → d.labels.lookup name = none := by
  cases stmt with
  | label name =>
      simp only [add] at h
      split at h
      · cases h
      · rename_i hfree
        refine ⟨h, ?_⟩
        rintro _ ⟨⟩
        exact Option.not_isSome_iff_eq_none.1 hfree
  | guard _ | access _ | maxLocals _ | maxStack _ | emit _ => exact ⟨h, by simp⟩
  | field kind owner name descriptor =>
      simp only [add] at h
      cases hparse : FieldRef.parse owner name descriptor with
      | ok f =>
          rw [hparse] at h
          exact ⟨h, by simp⟩
      | error e =>
          rw [hparse] at h
          cases h
  | invoke kind owner name descriptor =>
      simp only [add] at h
      cases hparse : MethodRef.parse owner name descriptor with
      | ok f =>
          rw [hparse] at h
          exact ⟨h, by simp⟩
      | error e =>
          rw [hparse] at h
          cases h

structure Records (stmts : List Stmt) (d : Draft) : Prop where
  code : d.code.toList = Stmt.emitted stmts
  handlers : d.handlers.toList = Stmt.handlers stmts
  bound : ∀ name n, d.labels.lookup name = some n → Stmt.Binds stmts name n
  binds : d.problem = none → ∀ name n, Stmt.Binds stmts name n → d.labels.lookup name = some n

variable {stmts : List Stmt} {d : Draft}

private theorem Records.add (h : Records stmts d) (stmt : Stmt) :
    Records (stmts ++ [stmt]) (d.add stmt) where
  code := by
    rw [add_code, h.code]
    cases hinsn : stmt.insn? <;> simp [Stmt.emitted, hinsn]
  handlers := by
    rw [add_handlers, h.handlers]
    cases hhandler : stmt.handler? <;> simp [Stmt.handlers, hhandler]
  bound name n hlookup := by
    rw [Stmt.binds_concat, ← h.code, Array.length_toList]
    rcases add_lookup.1 hlookup with hold | ⟨_, heq, hn⟩
    · exact .inl (h.bound name n hold)
    · exact .inr ⟨heq, hn⟩
  binds hnone name n hbinds := by
    obtain ⟨hclean, hfree⟩ := add_problem hnone
    rw [Stmt.binds_concat, ← h.code, Array.length_toList] at hbinds
    rw [add_lookup]
    rcases hbinds with hold | ⟨heq, hn⟩
    · exact .inl (h.binds hclean name n hold)
    · exact .inr ⟨hfree name heq, heq, hn⟩

theorem addAll_induct {P : List Stmt → Draft → Prop}
    (hadd : ∀ {before d} stmt, P before d → P (before ++ [stmt]) (d.add stmt))
    {before : List Stmt} (h : P before d) (stmts : List Stmt) :
    P (before ++ stmts) (d.addAll stmts) := by
  induction stmts generalizing before d with
  | nil => simpa [Draft.addAll] using h
  | cons stmt stmts ih =>
      have hrest := ih (hadd stmt h)
      rwa [List.append_assoc] at hrest

theorem Records.addAll {before : List Stmt} (h : Records before d) (stmts : List Stmt) :
    Records (before ++ stmts) (d.addAll stmts) :=
  addAll_induct (fun stmt h => h.add stmt) h stmts

theorem start_records {owner name descriptor : String}
    (h : start owner name descriptor = .ok d) : Records [] d := by
  unfold start at h
  split at h
  · cases h
    refine ⟨rfl, rfl, by simp, ?_⟩
    rintro - label n ⟨before, after, heq, _⟩
    simp at heq
  · cases h

end Draft

/-! ## Other targets -/

namespace Insn

variable {τ υ ε : Type}

def map (f : τ → υ) : Insn τ → Insn υ
  | branch condition t => branch condition (f t)
  | branchCompare kind condition t => branchCompare kind condition (f t)
  | jump t => jump (f t)
  | switch fallback cases => switch (f fallback) (cases.map fun x => (x.1, f x.2))
  | nop => nop
  | const c => const c
  | load kind slot => load kind slot
  | store kind slot => store kind slot
  | increment slot delta => increment slot delta
  | binary kind op => binary kind op
  | negate kind => negate kind
  | convert source target => convert source target
  | narrow target => narrow target
  | compare op => compare op
  | stack op => stack op
  | ret kind => ret kind
  | throw => throw
  | field access ref => field access ref
  | invoke kind method => invoke kind method
  | new className => new className
  | newArray element => newArray element
  | newMultiArray descriptor dimensions => newMultiArray descriptor dimensions
  | arrayLength => arrayLength
  | arrayLoad kind => arrayLoad kind
  | arrayStore kind => arrayStore kind
  | checkCast className => checkCast className
  | instanceOf className => instanceOf className
  | monitorEnter => monitorEnter
  | monitorExit => monitorExit

variable {f : τ → Except ε υ} {g : τ → υ}

private theorem resolveCases_eq_map {cases : List (Int32 × τ)}
    (h : ∀ x ∈ cases, f x.2 = .ok (g x.2)) :
    resolveCases f cases = .ok (cases.map fun x => (x.1, g x.2)) := by
  induction cases with
  | nil => rfl
  | cons x rest ih =>
      have hrest := ih fun y hy => h y (by simp [hy])
      simp [resolveCases, h x (by simp), hrest]

theorem resolve_eq_map {insn : Insn τ} (h : ∀ t ∈ insn.targets, f t = .ok (g t)) :
    insn.resolve f = .ok (insn.map g) := by
  cases insn with
  | branch _ t | branchCompare _ _ t | jump t =>
      simp [resolve, map, h t (by simp [targets]), Except.map]
  | switch fallback cases =>
      have hcase : ∀ x ∈ cases, f x.2 = .ok (g x.2) := fun x hx =>
        h x.2 (by simp only [targets, List.mem_cons, List.mem_map]; exact .inr ⟨x, hx, rfl⟩)
      have hcases := resolveCases_eq_map hcase
      simp [resolve, map, h fallback (by simp [targets]), hcases, Except.map]
  | _ => rfl

private theorem exists_of_resolveCases {cases : List (Int32 × τ)} {done : List (Int32 × υ)}
    (h : resolveCases f cases = .ok done) {x : Int32 × τ} (hx : x ∈ cases) :
    ∃ u, f x.2 = .ok u := by
  induction cases generalizing done with
  | nil => cases hx
  | cons y rest ih =>
      simp only [resolveCases] at h
      split at h
      · cases h
      · rename_i u hu
        split at h
        · cases h
        · rename_i hrest
          rcases List.mem_cons.1 hx with rfl | hmem
          · exact ⟨u, hu⟩
          · exact ih hrest hmem

theorem exists_of_resolve {insn : Insn τ} {i : Insn υ} (h : insn.resolve f = .ok i) {t : τ}
    (ht : t ∈ insn.targets) : ∃ u, f t = .ok u := by
  cases insn with
  | branch _ t' | branchCompare _ _ t' | jump t' =>
      cases List.mem_singleton.1 ht
      cases hf : f t with
      | ok u => exact ⟨u, rfl⟩
      | error e => simp [resolve, hf, Except.map] at h
  | switch fallback cases =>
      simp only [resolve] at h
      split at h
      · cases h
      · rename_i u hu
        cases hcases : resolveCases f cases with
        | error e => simp [hcases, Except.map] at h
        | ok done =>
            simp only [targets, List.mem_cons, List.mem_map] at ht
            rcases ht with rfl | ⟨x, hx, rfl⟩
            · exact ⟨u, hu⟩
            · exact exists_of_resolveCases hcases hx
  | _ => cases ht

end Insn

def Target.at (place : String → Nat) : Target → Nat
  | label name => place name
  | position index => index

namespace Handler

def map {τ υ : Type} (f : τ → υ) (h : Handler τ) : Handler υ :=
  ⟨f h.start, f h.stop, f h.entry, h.catchClass⟩

def labels (h : Handler String) : List String :=
  [h.start, h.stop, h.entry]

end Handler

/-! ## Finishing -/

section Except

variable {ε α β : Type}

theorem exists_of_bind {x : Except ε α} {f : α → Except ε β} {b : β} (h : x >>= f = .ok b) :
    ∃ a, x = .ok a ∧ f a = .ok b := by
  cases x with
  | error e => cases h
  | ok a => exact ⟨a, rfl, h⟩

theorem eq_map_of_forall₂ {R : α → β → Prop} {f : α → β} {l : List α} {l' : List β}
    (h : List.Forall₂ R l l') (hR : ∀ a b, R a b → b = f a) : l' = l.map f := by
  induction h with
  | nil => rfl
  | cons hab _ ih => rw [List.map_cons, hR _ _ hab, ih]

theorem exists_of_forall₂ {R : α → β → Prop} {l : List α} {l' : List β}
    (h : List.Forall₂ R l l') {a : α} (ha : a ∈ l) : ∃ b, R a b := by
  induction h with
  | nil => cases ha
  | cons hab _ ih =>
      rcases List.mem_cons.1 ha with rfl | hmem
      · exact ⟨_, hab⟩
      · exact ih hmem

private theorem forall₂_of_mapM {f : α → Except ε β} {l : List α} {l' : List β}
    (h : l.mapM f = .ok l') : List.Forall₂ (fun a b => f a = .ok b) l l' := by
  induction l generalizing l' with
  | nil =>
      cases h
      exact .nil
  | cons a l ih =>
      rw [List.mapM_cons] at h
      obtain ⟨b, hb, h⟩ := exists_of_bind h
      obtain ⟨bs, hbs, h⟩ := exists_of_bind h
      cases h
      exact .cons hb (ih hbs)

end Except

namespace Draft

variable {d : Draft} {m : Method}

theorem finish_ok (h : d.finish = .ok m) :
    d.problem = none ∧
      List.Forall₂ (fun a b => Insn.resolve d.targetPosition a = .ok b) d.code.toList
        m.code.toList ∧
      List.Forall₂ (fun a b => d.resolveHandler a = .ok b) d.handlers.toList m.handlers ∧
      d.localCount = .ok m.maxLocals ∧ m.checkLocals = .ok () ∧
      m = ⟨d.owner, d.name, d.type, d.access, m.maxLocals, d.maxStack, m.code, m.handlers⟩ := by
  unfold finish at h
  cases hproblem : d.problem with
  | some e =>
      rw [hproblem] at h
      cases h
  | none =>
      simp only [hproblem] at h
      obtain ⟨code, hcode, h⟩ := exists_of_bind h
      rw [Array.mapM_eq_mapM_toList] at hcode
      obtain ⟨insns, hinsns, hcode⟩ := exists_of_bind hcode
      obtain ⟨handlers, hhandlers, h⟩ := exists_of_bind h
      obtain ⟨count, hcount, h⟩ := exists_of_bind h
      split at h
      · rename_i m' hchecked
        cases h
        unfold Method.checked at hchecked
        split at hchecked
        · rename_i hlocals
          cases hchecked
          cases hcode
          exact ⟨rfl, forall₂_of_mapM hinsns, forall₂_of_mapM hhandlers, hcount, hlocals, rfl⟩
        · cases hchecked
      · cases h

/-- Where the draft has bound a label; a label that is not bound has no place of its own. -/
def place (d : Draft) (name : String) : Nat :=
  (d.labels.lookup name).getD 0

theorem labelPosition_ok {name : String} {n : Nat} :
    d.labelPosition name = .ok n ↔ d.labels.lookup name = some n := by
  unfold labelPosition
  cases d.labels.lookup name <;> simp

theorem place_eq {name : String} {n : Nat} (h : d.labels.lookup name = some n) :
    d.place name = n := by
  rw [place, h, Option.getD_some]

private theorem targetPosition_ok {t : Target} {n : Nat} (h : d.targetPosition t = .ok n) :
    t.at d.place = n := by
  cases t with
  | label name => exact place_eq (labelPosition_ok.1 h)
  | position index => exact Except.ok.inj h

theorem resolve_ok {insn : Insn Target} {i : Insn Nat}
    (h : insn.resolve d.targetPosition = .ok i) : i = insn.map (Target.at d.place) := by
  have hmap : insn.resolve d.targetPosition = .ok (insn.map (Target.at d.place)) := by
    refine Insn.resolve_eq_map fun t ht => ?_
    obtain ⟨n, hn⟩ := Insn.exists_of_resolve h ht
    rw [hn, targetPosition_ok hn]
  exact Except.ok.inj (h.symm.trans hmap)

theorem resolveHandler_ok {handler : Handler String} {resolved : Handler Nat}
    (h : d.resolveHandler handler = .ok resolved) :
    resolved = handler.map d.place ∧
      ∀ name ∈ handler.labels, ∃ n, d.labels.lookup name = some n := by
  obtain ⟨start, hstart, h⟩ := exists_of_bind h
  obtain ⟨stop, hstop, h⟩ := exists_of_bind h
  obtain ⟨entry, hentry, h⟩ := exists_of_bind h
  cases h
  rw [labelPosition_ok] at hstart hstop hentry
  constructor
  · rw [Handler.map, place_eq hstart, place_eq hstop, place_eq hentry]
  · intro name hname
    simp only [Handler.labels, List.mem_cons, List.not_mem_nil, or_false] at hname
    rcases hname with rfl | rfl | rfl
    · exact ⟨start, hstart⟩
    · exact ⟨stop, hstop⟩
    · exact ⟨entry, hentry⟩

end Draft

end FrameFlow
