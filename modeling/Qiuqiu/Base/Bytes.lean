/-!
Strings of bytes, with the classes of bytes in the C locale.
-/
namespace Qiuqiu

abbrev Bytes := List UInt8

/-- The bytes of a text in ASCII. -/
def ascii (s : String) : Bytes := s.toList.map fun c => c.toNat.toUInt8

def isdigit (c : UInt8) : Bool := 48 ≤ c && c ≤ 57

def iscntrl (c : UInt8) : Bool := c < 32 || c == 127

end Qiuqiu
