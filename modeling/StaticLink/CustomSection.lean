/-!
# Custom sections

The custom sections that have a meaning to the linker, by their names, and the subsections in them,
by the bytes that open them.
-/

namespace StaticLink.CustomSection

/-- The name of the section that describes symbols, segments and initializers. -/
def linkingName : String := "linking"

/-- The name of the section that holds names for debuggers. -/
def namesName : String := "name"

/-- How the names of relocation sections start. -/
def relocationsStart : String := "reloc."

/-- How the names of relocation sections about debugging sections start. -/
def debugRelocationsStart : String := "reloc..debug"

/-- What a custom section means. -/
inductive Kind
  | linking
  | names
  | relocations
  | ignored
deriving DecidableEq, Repr

/-- Relocations of debugging sections are ignored like those sections themselves. -/
def Kind.ofName (name : String) : Kind :=
  if name = linkingName then .linking
  else if name = namesName then .names
  else if name.startsWith debugRelocationsStart then .ignored
  else if name.startsWith relocationsStart then .relocations
  else .ignored

/-- The version of the linking section that is understood. -/
def linkingVersion : UInt32 := 2

/-! ## Subsections -/

/-- The names of functions, in the section of names. -/
@[match_pattern] def functionNames : UInt8 := 1

/-- What data segments are called and how they are aligned, in the linking section. -/
@[match_pattern] def segmentInfos : UInt8 := 5

/-- Functions to be called at start, in the linking section. -/
@[match_pattern] def initializers : UInt8 := 6

/-- The symbol table, in the linking section. -/
@[match_pattern] def symbolTable : UInt8 := 8

end StaticLink.CustomSection
