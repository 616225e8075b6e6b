/-!
# Keyword vocabularies

Many parts of the assembly language are closed sets of words (linkages, visibilities, opcodes,
predicates). A `Keyword` instance lists the members of such a set and the word of each; reading a
word is a search of that list, so every member reads back from its own word.
-/

namespace LlvmAsm

/-- A closed set of values, each written as one word. -/
class Keyword (α : Type) where
  /-- Every member, in the order words are tried. -/
  all : List α
  /-- The word of a member. -/
  keyword : α → String

/-- The member written as `s`, if any. -/
def Keyword.ofKeyword? {α : Type} [Keyword α] (s : String) : Option α :=
  (Keyword.all : List α).find? (Keyword.keyword · == s)

end LlvmAsm
