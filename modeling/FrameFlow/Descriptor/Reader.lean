import FrameFlow.Descriptor

/-!
# Reading descriptors

Reading a type takes characters off the front of a list and returns the rest,
so that types can be read one after another.  A descriptor has to be used up
completely; otherwise the first character left over is reported.
-/

namespace FrameFlow

inductive DescriptorFault where
  | missingType
  | badLetter (letter : Char)
  | emptyClassName
  | openClassName (name : String)
  | noParameterList
  | openParameterList
  | leftover (letter : Char)
  deriving DecidableEq, Repr

def DescriptorFault.text : DescriptorFault → String
  | missingType => "missing field type"
  | badLetter c => s!"invalid type character '{c}'"
  | emptyClassName => "empty class name"
  | openClassName name => s!"missing terminator for 'L{name}'"
  | noParameterList => "expected '(' to open the parameter list"
  | openParameterList => "unterminated parameter list"
  | leftover c => s!"unexpected leftover input '{c}'"

structure DescriptorError where
  descriptor : String
  fault : DescriptorFault
  deriving DecidableEq, Repr

def DescriptorError.text (e : DescriptorError) : String :=
  s!"Invalid descriptor '{e.descriptor}' - {e.fault.text}"

/-! ## Field types -/

/-- A class name runs up to the first `;`, which is taken off as well. -/
def readClassName (cs : List Char) : Except DescriptorFault (String × List Char) :=
  let name := cs.takeWhile (· != ';')
  match cs.dropWhile (· != ';') with
  | [] => .error (.openClassName (String.ofList name))
  | _ :: rest =>
      if name.isEmpty then .error .emptyClassName
      else .ok (String.ofList name, rest)

def FieldType.read : List Char → Except DescriptorFault (FieldType × List Char)
  | [] => .error .missingType
  | c :: cs =>
      if c = 'L' then
        match readClassName cs with
        | .error fault => .error fault
        | .ok (name, rest) => .ok (.object name, rest)
      else if c = '[' then
        match FieldType.read cs with
        | .error fault => .error fault
        | .ok (element, rest) => .ok (.array element, rest)
      else
        match BaseType.ofLetter? c with
        | none => .error (.badLetter c)
        | some b => .ok (.base b, cs)

def completeReading {α : Type} : Except DescriptorFault (α × List Char) →
    Except DescriptorFault α
  | .error fault => .error fault
  | .ok (a, []) => .ok a
  | .ok (_, c :: _) => .error (.leftover c)

def FieldType.parse (descriptor : String) : Except DescriptorError FieldType :=
  match completeReading (FieldType.read descriptor.toList) with
  | .ok t => .ok t
  | .error fault => .error ⟨descriptor, fault⟩

private theorem readClassName_length {cs : List Char} {name : String} {rest : List Char}
    (h : readClassName cs = .ok (name, rest)) : rest.length < cs.length := by
  have parts := congrArg List.length
    (List.takeWhile_append_dropWhile (p := (· != ';')) (l := cs))
  unfold readClassName at h
  cases hdrop : cs.dropWhile (· != ';') with
  | nil => simp [hdrop] at h
  | cons c tail =>
      simp only [hdrop] at h
      split at h
      · cases h
      · simp only [Except.ok.injEq, Prod.mk.injEq] at h
        rw [← h.2]
        simp only [hdrop, List.length_append, List.length_cons] at parts
        omega

private theorem FieldType.read_length {cs : List Char} {t : FieldType} {rest : List Char}
    (h : FieldType.read cs = .ok (t, rest)) : rest.length < cs.length := by
  induction cs generalizing t rest with
  | nil => simp [FieldType.read] at h
  | cons c cs ih =>
      unfold FieldType.read at h
      split at h
      · split at h
        · cases h
        · rename_i name tail hname
          cases h
          have := readClassName_length hname
          simp only [List.length_cons]
          omega
      · split at h
        · split at h
          · cases h
          · rename_i element tail helement
            cases h
            have := ih helement
            simp only [List.length_cons]
            omega
        · split at h
          · cases h
          · cases h
            simp

/-! ## Method types -/

def MethodType.readParams (cs : List Char) :
    Except DescriptorFault (List FieldType × List Char) :=
  match cs with
  | [] => .error .openParameterList
  | c :: tail =>
      if c = ')' then .ok ([], tail)
      else
        match _h : FieldType.read (c :: tail) with
        | .error fault => .error fault
        | .ok (t, rest) =>
            match MethodType.readParams rest with
            | .error fault => .error fault
            | .ok (ts, rest) => .ok (t :: ts, rest)
termination_by cs.length
decreasing_by exact FieldType.read_length _h

def MethodType.readResult : List Char →
    Except DescriptorFault (Option FieldType × List Char)
  | [] => .error .missingType
  | c :: cs =>
      if c = 'V' then .ok (none, cs)
      else
        match FieldType.read (c :: cs) with
        | .error fault => .error fault
        | .ok (t, rest) => .ok (some t, rest)

def MethodType.read : List Char → Except DescriptorFault (MethodType × List Char)
  | [] => .error .noParameterList
  | c :: cs =>
      if c = '(' then
        match MethodType.readParams cs with
        | .error fault => .error fault
        | .ok (params, cs) =>
            match MethodType.readResult cs with
            | .error fault => .error fault
            | .ok (result, rest) => .ok (⟨params, result⟩, rest)
      else .error .noParameterList

def MethodType.parse (descriptor : String) : Except DescriptorError MethodType :=
  match completeReading (MethodType.read descriptor.toList) with
  | .ok t => .ok t
  | .error fault => .error ⟨descriptor, fault⟩

end FrameFlow
