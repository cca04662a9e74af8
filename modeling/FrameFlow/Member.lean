import FrameFlow.Descriptor.Reader

/-!
# Fields and methods of other classes

Instructions name a field or a method by its owner, its own name and its type.
-/

namespace FrameFlow

structure FieldRef where
  owner : String
  name : String
  type : FieldType
  deriving DecidableEq, Repr

namespace FieldRef

def parse (owner name descriptor : String) : Except DescriptorError FieldRef :=
  match FieldType.parse descriptor with
  | .ok type => .ok ⟨owner, name, type⟩
  | .error e => .error e

def width (f : FieldRef) : Width :=
  f.type.width

def text (f : FieldRef) : String :=
  s!"{f.owner}.{f.name}:{f.type.text}"

end FieldRef

structure MethodRef where
  owner : String
  name : String
  type : MethodType
  deriving DecidableEq, Repr

namespace MethodRef

def parse (owner name descriptor : String) : Except DescriptorError MethodRef :=
  match MethodType.parse descriptor with
  | .ok type => .ok ⟨owner, name, type⟩
  | .error e => .error e

def resultWidth? (m : MethodRef) : Option Width :=
  m.type.result.map FieldType.width

def text (m : MethodRef) : String :=
  s!"{m.owner}.{m.name}{m.type.text}"

end MethodRef

end FrameFlow
