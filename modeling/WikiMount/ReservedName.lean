/-! # Reserved names
Names that mean the same at every place of the tree: the base views, the file views of a page, the
marker of letter groups, and the scratch files that editors and file managers leave behind. -/

namespace WikiMount.ReservedName

/-- The base view of spaces and their pages. -/
def pagesView : String := "spaces"

/-- The base view of pages that hold attachments. -/
def attachmentsView : String := "attachments"

/-- The base view of pages without a stored parent. -/
def orphansView : String := "orphans"

def wikiText : String := "wiki.txt"

def wikiXml : String := "wiki.xml"

/-- Opens and closes the name of every letter group. -/
def groupMarker : Char := '_'

def asciiLower (s : String) : List Char := s.toList.map Char.toLower

/-- Scratch files are hidden files, backup files and the files of desktop environments. -/
def isScratch (name : String) : Bool :=
  name.toList.head? == some '.' || name.toList.getLast? == some '~' ||
    asciiLower name == "desktop.ini".toList || asciiLower name == "thumbs.db".toList

/-- Group names have at least two characters and both ends marked. -/
def isGroup (name : String) : Bool :=
  name.toList.length ≥ 2 && name.toList.head? == some groupMarker &&
    name.toList.getLast? == some groupMarker

end WikiMount.ReservedName
