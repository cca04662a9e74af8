import FrameFlow.Descriptor.Reader
import Mathlib.Data.List.TakeWhile

/-!
# Descriptors have one written form

Reading accepts exactly what writing produces.  A type is read off the front of
a list just when its characters are there, whatever follows them: a class name
ends at the first `;`, no name contains one, and the first character tells how
to go on.  So the text of a type reads back as that type, two types never share
a text, and no other text is a descriptor.
-/

namespace FrameFlow

theorem BaseType.ofLetter?_eq_some_iff {c : Char} {b : BaseType} :
    ofLetter? c = some b ↔ c = b.letter := by
  constructor
  · intro h
    unfold ofLetter? at h
    split at h <;> cases h <;> rfl
  · rintro rfl
    cases b <;> rfl

/-! ## Field types -/

theorem readClassName_eq_ok_iff {cs : List Char} {name : String} {rest : List Char} :
    readClassName cs = .ok (name, rest) ↔
      (FieldType.object name).WellFormed ∧ cs = name.toList ++ ';' :: rest := by
  constructor
  · intro h
    have hparts := List.takeWhile_append_dropWhile (p := (· != ';')) (l := cs)
    have hfree : ';' ∉ cs.takeWhile (· != ';') := by
      intro hmem
      simpa using List.mem_takeWhile_imp hmem
    unfold readClassName at h
    cases hdrop : cs.dropWhile (· != ';') with
    | nil => simp [hdrop] at h
    | cons c tail =>
        have hc : c = ';' := by
          have hhead := List.head?_dropWhile_not (· != ';') cs
          simpa [hdrop] using hhead
        subst hc
        simp only [hdrop] at h
        split at h
        · cases h
        · rename_i hname
          cases h
          simp only [FieldType.WellFormed, String.toList_ofList]
          refine ⟨⟨by simpa using hname, hfree⟩, ?_⟩
          rw [← hdrop, hparts]
  · rintro ⟨⟨hname, hfree⟩, rfl⟩
    have hinside : ∀ c ∈ name.toList, (c != ';') = true := by
      intro c hc
      simp only [bne_iff_ne, ne_eq]
      rintro rfl
      exact hfree hc
    simp [readClassName, List.takeWhile_append_of_pos hinside,
      List.dropWhile_append_of_pos hinside, hname]

namespace FieldType

theorem read_chars {t : FieldType} (h : t.WellFormed) (rest : List Char) :
    read (t.chars ++ rest) = .ok (t, rest) := by
  induction t with
  | base b =>
      have hletter : b.letter ≠ 'L' ∧ b.letter ≠ '[' := by cases b <;> decide
      simp [chars, read, hletter, BaseType.ofLetter?_eq_some_iff.2 rfl]
  | object name =>
      have hname : readClassName (name.toList ++ ';' :: rest) = .ok (name, rest) :=
        readClassName_eq_ok_iff.2 ⟨h, rfl⟩
      simp [chars, read, hname]
  | array element ih => simp [chars, read, ih h]

theorem of_read {cs : List Char} {t : FieldType} {rest : List Char}
    (h : read cs = .ok (t, rest)) : t.WellFormed ∧ cs = t.chars ++ rest := by
  induction cs generalizing t rest with
  | nil => simp [read] at h
  | cons c cs ih =>
      unfold read at h
      split at h
      · rename_i hc
        subst hc
        split at h
        · cases h
        · rename_i name tail hname
          cases h
          obtain ⟨hwell, rfl⟩ := readClassName_eq_ok_iff.1 hname
          exact ⟨hwell, by simp [chars]⟩
      · split at h
        · rename_i hc
          subst hc
          split at h
          · cases h
          · rename_i element tail helement
            cases h
            obtain ⟨hwell, rfl⟩ := ih helement
            exact ⟨hwell, rfl⟩
        · split at h
          · cases h
          · rename_i b hb
            cases h
            rw [BaseType.ofLetter?_eq_some_iff.1 hb]
            exact ⟨trivial, rfl⟩

private theorem read_eq_ok_iff {cs : List Char} {t : FieldType} {rest : List Char} :
    read cs = .ok (t, rest) ↔ t.WellFormed ∧ cs = t.chars ++ rest := by
  constructor
  · exact of_read
  · rintro ⟨hwell, rfl⟩
    exact read_chars hwell rest

private theorem chars_eq_cons (t : FieldType) : ∃ c cs, t.chars = c :: cs ∧ c ≠ ')' ∧ c ≠ 'V' := by
  cases t with
  | base b => exact ⟨b.letter, [], rfl, by cases b <;> decide⟩
  | object name => exact ⟨'L', _, rfl, by decide⟩
  | array element => exact ⟨'[', _, rfl, by decide⟩

end FieldType

/-! ## Method types -/

namespace MethodType

private theorem readParams_cons {c : Char} (hc : c ≠ ')') (cs : List Char) :
    readParams (c :: cs) = (do
      let x ← FieldType.read (c :: cs)
      let y ← readParams x.2
      return (x.1 :: y.1, y.2)) := by
  rw [readParams, if_neg hc]
  split
  · rename_i hread
    rw [hread]
    rfl
  · rename_i t rest hread
    rw [hread]
    change _ = (readParams rest >>= fun y => pure (t :: y.1, y.2))
    cases readParams rest <;> rfl

private theorem readParams_chars {ts : List FieldType} (h : ∀ t ∈ ts, t.WellFormed)
    (rest : List Char) :
    readParams (ts.flatMap FieldType.chars ++ ')' :: rest) = .ok (ts, rest) := by
  induction ts with
  | nil => simp [readParams]
  | cons t ts ih =>
      obtain ⟨c, cs, hchars, hclose, _⟩ := t.chars_eq_cons
      have hread := FieldType.read_chars (h t (by simp)) (ts.flatMap FieldType.chars ++ ')' :: rest)
      have hrest := ih fun u hu => h u (by simp [hu])
      rw [List.flatMap_cons, List.append_assoc]
      rw [hchars, List.cons_append] at hread ⊢
      rw [readParams_cons hclose, hread]
      change (readParams _ >>= _) = _
      rw [hrest]
      rfl

private theorem of_readParams {cs : List Char} {ts : List FieldType} {rest : List Char}
    (h : readParams cs = .ok (ts, rest)) :
    (∀ t ∈ ts, t.WellFormed) ∧ cs = ts.flatMap FieldType.chars ++ ')' :: rest := by
  fun_induction readParams cs generalizing ts with
  | case1 => cases h
  | case2 tail =>
      cases h
      simp
  | case3 => cases h
  | case4 => cases h
  | case5 c tail _ t middle hread params last hparams ih =>
      cases h
      obtain ⟨hwell, hchars⟩ := FieldType.of_read hread
      obtain ⟨hall, hmiddle⟩ := ih hparams
      refine ⟨by simpa [hwell] using hall, ?_⟩
      rw [hchars, hmiddle]
      simp

private theorem readResult_chars {t : MethodType} (h : ∀ r ∈ t.result, r.WellFormed)
    (rest : List Char) :
    readResult (t.resultChars ++ rest) = .ok (t.result, rest) := by
  unfold resultChars
  cases hresult : t.result with
  | none => rfl
  | some r =>
      obtain ⟨c, cs, hchars, _, hvoid⟩ := r.chars_eq_cons
      have hread := FieldType.read_chars (h r hresult) rest
      rw [hchars, List.cons_append] at hread
      simp [hchars, readResult, hvoid, hread]

private theorem of_readResult {cs : List Char} {t : MethodType} {rest : List Char}
    (h : readResult cs = .ok (t.result, rest)) :
    (∀ r ∈ t.result, r.WellFormed) ∧ cs = t.resultChars ++ rest := by
  unfold readResult at h
  unfold resultChars
  split at h
  · cases h
  · split at h
    · rename_i hvoid
      simp only [Except.ok.injEq, Prod.mk.injEq] at h
      obtain ⟨hresult, rfl⟩ := h
      rw [← hresult, hvoid]
      exact ⟨by simp, rfl⟩
    · split at h
      · cases h
      · rename_i r tail hread
        simp only [Except.ok.injEq, Prod.mk.injEq] at h
        obtain ⟨hresult, rfl⟩ := h
        obtain ⟨hwell, hchars⟩ := FieldType.of_read hread
        rw [← hresult, hchars]
        exact ⟨by simpa using hwell, rfl⟩

private theorem read_eq_ok_iff {cs : List Char} {t : MethodType} {rest : List Char} :
    read cs = .ok (t, rest) ↔ t.WellFormed ∧ cs = t.chars ++ rest := by
  constructor
  · intro h
    unfold read at h
    split at h
    · cases h
    · split at h
      · rename_i hopen
        split at h
        · cases h
        · rename_i params middle hparams
          split at h
          · cases h
          · rename_i result tail hresult
            cases h
            obtain ⟨hall, rfl⟩ := of_readParams hparams
            obtain ⟨hwell, rfl⟩ := of_readResult (t := ⟨params, result⟩) hresult
            exact ⟨⟨hall, hwell⟩, by simp [hopen, chars]⟩
      · cases h
  · rintro ⟨⟨hall, hwell⟩, rfl⟩
    simp [chars, read, readParams_chars hall, readResult_chars hwell]

end MethodType

/-! ## Complete descriptors -/

theorem completeReading_eq_ok_iff {α : Type} {reading : Except DescriptorFault (α × List Char)}
    {a : α} : completeReading reading = .ok a ↔ reading = .ok (a, []) := by
  match reading with
  | .error _ => simp [completeReading]
  | .ok (b, []) => simp [completeReading]
  | .ok (b, c :: cs) => simp [completeReading]

private theorem FieldType.parse_eq_ok_iff {s : String} {t : FieldType} :
    FieldType.parse s = .ok t ↔ FieldType.read s.toList = .ok (t, []) := by
  rw [← completeReading_eq_ok_iff]
  unfold FieldType.parse
  cases completeReading (FieldType.read s.toList) <;> simp

private theorem MethodType.parse_eq_ok_iff {s : String} {t : MethodType} :
    MethodType.parse s = .ok t ↔ MethodType.read s.toList = .ok (t, []) := by
  rw [← completeReading_eq_ok_iff]
  unfold MethodType.parse
  cases completeReading (MethodType.read s.toList) <;> simp

/--
A text is a descriptor of a type just when it is the text of that type and every
class name in the type can be written; of field types and of method types.
-/
theorem parse_eq_ok_iff_text (s : String) :
    (∀ t, FieldType.parse s = .ok t ↔ t.WellFormed ∧ t.text = s) ∧
      ∀ t, MethodType.parse s = .ok t ↔ t.WellFormed ∧ t.text = s := by
  have hchars (cs : List Char) : s.toList = cs ++ [] ↔ String.ofList cs = s := by
    rw [List.append_nil, eq_comm, ← String.toList_inj, String.toList_ofList]
  constructor
  · intro t
    rw [FieldType.parse_eq_ok_iff, FieldType.read_eq_ok_iff, hchars]
    rfl
  · intro t
    rw [MethodType.parse_eq_ok_iff, MethodType.read_eq_ok_iff, hchars]
    rfl

end FrameFlow
