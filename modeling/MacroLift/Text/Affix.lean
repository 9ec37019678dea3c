import MacroLift.Text.NamePattern

namespace MacroLift.Text

def startsWith (text start : String) : Bool :=
  start.toList.isPrefixOf text.toList

def endsWith (text ending : String) : Bool :=
  ending.toList.isSuffixOf text.toList

def occursIn (part text : List Char) : Bool :=
  (suffixes text).any part.isPrefixOf

end MacroLift.Text
