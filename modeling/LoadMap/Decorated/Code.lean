import LoadMap.Decorated.Basic

/-! The letter codes of decorated names that stand for one fixed thing each: the types of the
language, operators and parts of the runtime, calling conventions, and kinds of methods. -/
namespace LoadMap.Decorated.Code

def type? : Char → Option String
  | 'X' => some "void"
  | 'C' => some "signed char"
  | 'D' => some "char"
  | 'E' => some "unsigned char"
  | 'F' => some "short"
  | 'G' => some "unsigned short"
  | 'H' => some "int"
  | 'I' => some "unsigned int"
  | 'J' => some "long"
  | 'K' => some "unsigned long"
  | 'M' => some "float"
  | 'N' => some "double"
  | 'O' => some "long double"
  | _ => none

def laterType? : Char → Option String
  | 'N' => some "bool"
  | 'J' => some "__int64"
  | 'K' => some "unsigned __int64"
  | 'L' => some "__int128"
  | 'M' => some "unsigned __int128"
  | 'Q' => some "char8_t"
  | 'S' => some "char16_t"
  | 'U' => some "char32_t"
  | 'W' => some "wchar_t"
  | _ => none

def convention? : Char → Option Convention
  | 'A' | 'B' => some .cdecl
  | 'C' => some .pascal
  | 'E' => some .thiscall
  | 'G' => some .stdcall
  | 'I' => some .fastcall
  | _ => none

/-- What a function is to its class; functions that are far away are none. -/
def method? : Char → Option (Option Method)
  | 'A' | 'B' => some (some { access := .private })
  | 'C' | 'D' => some (some { access := .private, isStatic := true })
  | 'E' | 'F' => some (some { access := .private, isVirtual := true })
  | 'G' | 'H' => some (some { access := .private, isVirtual := true, isThunk := true })
  | 'I' | 'J' => some (some { access := .protected })
  | 'K' | 'L' => some (some { access := .protected, isStatic := true })
  | 'M' | 'N' => some (some { access := .protected, isVirtual := true })
  | 'O' | 'P' => some (some { access := .protected, isVirtual := true, isThunk := true })
  | 'Q' | 'R' => some (some { access := .public })
  | 'S' | 'T' => some (some { access := .public, isStatic := true })
  | 'U' | 'V' => some (some { access := .public, isVirtual := true })
  | 'W' | 'X' => some (some { access := .public, isVirtual := true, isThunk := true })
  | 'Z' => some none
  | _ => none

def storage? : Char → Option (Option Access)
  | '0' => some (some .private)
  | '1' => some (some .protected)
  | '2' => some (some .public)
  | '3' | '4' => some none
  | _ => none

def operator? : Char → Option String
  | '2' => some "operator new"
  | '3' => some "operator delete"
  | '4' => some "operator="
  | '5' => some "operator>>"
  | '6' => some "operator<<"
  | '7' => some "operator!"
  | '8' => some "operator=="
  | '9' => some "operator!="
  | 'A' => some "operator[]"
  | 'C' => some "operator->"
  | 'D' => some "operator*"
  | 'E' => some "operator++"
  | 'F' => some "operator--"
  | 'G' => some "operator-"
  | 'H' => some "operator+"
  | 'I' => some "operator&"
  | 'J' => some "operator->*"
  | 'K' => some "operator/"
  | 'L' => some "operator%"
  | 'M' => some "operator<"
  | 'N' => some "operator<="
  | 'O' => some "operator>"
  | 'P' => some "operator>="
  | 'Q' => some "operator,"
  | 'R' => some "operator()"
  | 'S' => some "operator~"
  | 'T' => some "operator^"
  | 'U' => some "operator|"
  | 'V' => some "operator&&"
  | 'W' => some "operator||"
  | 'X' => some "operator*="
  | 'Y' => some "operator+="
  | 'Z' => some "operator-="
  | _ => none

def laterOperator? : Char → Option String
  | '0' => some "operator/="
  | '1' => some "operator%="
  | '2' => some "operator>>="
  | '3' => some "operator<<="
  | '4' => some "operator&="
  | '5' => some "operator|="
  | '6' => some "operator^="
  | '7' => some "`vftable'"
  | '8' => some "`vbtable'"
  | '9' => some "`vcall'"
  | 'A' => some "`typeof'"
  | 'B' => some "`local static guard'"
  | 'D' => some "`vbase destructor'"
  | 'E' => some "`vector deleting destructor'"
  | 'F' => some "`default constructor closure'"
  | 'G' => some "`scalar deleting destructor'"
  | 'H' => some "`vector constructor iterator'"
  | 'I' => some "`vector destructor iterator'"
  | 'J' => some "`vector vbase constructor iterator'"
  | 'K' => some "`virtual displacement map'"
  | 'L' => some "`eh vector constructor iterator'"
  | 'M' => some "`eh vector destructor iterator'"
  | 'N' => some "`eh vector vbase constructor iterator'"
  | 'O' => some "`copy constructor closure'"
  | 'S' => some "`local vftable'"
  | 'T' => some "`local vftable constructor closure'"
  | 'U' => some "operator new[]"
  | 'V' => some "operator delete[]"
  | 'X' => some "`placement delete closure'"
  | 'Y' => some "`placement delete[] closure'"
  | _ => none

def latestOperator? : Char → Option String
  | 'A' => some "`managed vector constructor iterator'"
  | 'B' => some "`managed vector destructor iterator'"
  | 'C' => some "`eh vector copy constructor iterator'"
  | 'D' => some "`eh vector vbase copy constructor iterator'"
  | 'G' => some "`vector copy constructor iterator'"
  | 'H' => some "`vector vbase copy constructor iterator'"
  | 'I' => some "`managed vector vbase copy constructor iterator'"
  | 'J' => some "`local static thread guard'"
  | 'L' => some "operator co_await"
  | 'M' => some "operator<=>"
  | _ => none

def description? : Char → Option String
  | '2' => some "`RTTI Base Class Array'"
  | '3' => some "`RTTI Class Hierarchy Descriptor'"
  | '4' => some "`RTTI Complete Object Locator'"
  | _ => none

end LoadMap.Decorated.Code
