import RobotLang.Grammar.Tree

namespace RobotLang.Grammar

def dataType : Parser SkillsetEntry := do
  let (mark, _) ← word "type"
  let (_, name) ← identifier
  pure (.type mark name)

def skill : Parser String := do
  let _ ← word "skill"
  let (_, name) ← identifier
  pure name

def skillList : Parser (List String) := do
  let _ ← symbol '\x7b'
  let skills ← Parser.many skill
  let _ ← symbol '\x7d'
  pure skills

def skillset : Parser SkillsetEntry := do
  let (mark, _) ← word "skillset"
  let (_, name) ← identifier
  let skills ← Parser.optional skillList
  pure (.skillset mark name (skills.getD []))

def skillsetEntry : Parser SkillsetEntry := dataType <|> skillset

def skillsetFile : Parser (List SkillsetEntry) := do
  let entries ← Parser.many skillsetEntry
  let _ ← finish
  pure entries

end RobotLang.Grammar
