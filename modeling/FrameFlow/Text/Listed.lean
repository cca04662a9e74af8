/-!
# Lists in texts

Several texts on one line are separated by a comma and a blank.
-/

namespace FrameFlow.Text

def listed (items : List String) : String :=
  String.intercalate ", " items

end FrameFlow.Text
