import AssemblyConsole.Architecture
import AssemblyConsole.Text.Blank
import AssemblyConsole.Text.LowerCase
import AssemblyConsole.Text.Quoted

/-!
The names of the supported architectures. A name may be given in any case, between white space, and with hyphens
in place of low lines.
-/

namespace AssemblyConsole.Architecture

def x86 : Architecture := ⟨.x86, .bits32, .little, .ordinary⟩
def x86Real : Architecture := ⟨.x86, .bits16, .little, .ordinary⟩
def x86Long : Architecture := ⟨.x86, .bits64, .little, .ordinary⟩
def armLittle : Architecture := ⟨.arm, .bits32, .little, .ordinary⟩
def armBig : Architecture := ⟨.arm, .bits32, .big, .ordinary⟩
def thumb : Architecture := ⟨.arm, .bits32, .little, .thumb⟩
def aarch64 : Architecture := ⟨.aarch64, .bits64, .little, .ordinary⟩
def mipsBig : Architecture := ⟨.mips, .bits32, .big, .ordinary⟩
def mipsLittle : Architecture := ⟨.mips, .bits32, .little, .ordinary⟩
def mips64Big : Architecture := ⟨.mips, .bits64, .big, .ordinary⟩
def mips64Little : Architecture := ⟨.mips, .bits64, .little, .ordinary⟩
def ppc : Architecture := ⟨.ppc, .bits32, .big, .ordinary⟩
def ppc64 : Architecture := ⟨.ppc, .bits64, .big, .ordinary⟩

/-- The architecture of a console for which none is chosen. -/
def standard : Architecture := x86

/-- The supported architectures by name, the names in ascending order. -/
def table : List (String × Architecture) := [
  ("aarch64", aarch64),
  ("amd64", x86Long),
  ("arm", armLittle),
  ("arm64", aarch64),
  ("armbe", armBig),
  ("armel", armLittle),
  ("i386", x86),
  ("i8086", x86Real),
  ("ia32", x86),
  ("mips", mipsBig),
  ("mips64", mips64Big),
  ("mips64el", mips64Little),
  ("mipsel", mipsLittle),
  ("powerpc", ppc),
  ("ppc", ppc),
  ("ppc64", ppc64),
  ("thumb", thumb),
  ("x64", x86Long),
  ("x86", x86),
  ("x86_16", x86Real),
  ("x86_64", x86Long)]

def names : List String := table.map (·.1)

def namesOf (a : Architecture) : List String := (table.filter (·.2 = a)).map (·.1)

def nameKey (name : String) : String :=
  String.ofList ((Text.lowerCase (Text.trim name.toList)).map fun c => if c = '-' then '_' else c)

def ofName? (name : String) : Option Architecture := table.lookup (nameKey name)

def unknownMessage (name : String) : String := s!"Unknown architecture {Text.quoted name}"

end AssemblyConsole.Architecture
