import WikiMount.LetterGroup

/-! # Configuration of the view -/

namespace WikiMount

structure Config where
  grouping : Thresholds
  /-- The content of pages that are created as directories. -/
  placeholder : String
  /-- The page that is created with a new space. -/
  homePage : String
  /-- The locale of pages that are created through the view. -/
  defaultLocale : String
  /-- For how many users scratch files are kept. -/
  sessionCapacity : Nat
  /-- After how many seconds without a request a user's scratch files are dropped. -/
  sessionMaxIdle : Nat
deriving DecidableEq

/-- Why a configuration cannot be used. -/
inductive ConfigError
  | decreasingThresholds (grouping : Thresholds)
  | noHomePage
  | noSessions
deriving DecidableEq

def ConfigError.message : ConfigError → String
  | .decreasingThresholds g =>
    "Invalid configuration: grouping thresholds must not decrease (" ++ toString g.oneLetter ++ ", " ++
      toString g.twoLetters ++ ", " ++ toString g.threeLetters ++ ")"
  | .noHomePage => "Invalid configuration: home_page is empty"
  | .noSessions => "Invalid configuration: session_capacity must be at least 1"

namespace Config

def standard : Config where
  grouping := .standard
  placeholder := "This page was created through the file view."
  homePage := "WebHome"
  defaultLocale := ""
  sessionCapacity := 1024
  sessionMaxIdle := 300

instance : Inhabited Config := ⟨standard⟩

/-- The first thing that is wrong with a configuration. -/
def validate (c : Config) : Except ConfigError Config :=
  if ¬(c.grouping.oneLetter ≤ c.grouping.twoLetters ∧
      c.grouping.twoLetters ≤ c.grouping.threeLetters) then
    .error (.decreasingThresholds c.grouping)
  else if c.homePage = "" then .error .noHomePage
  else if c.sessionCapacity = 0 then .error .noSessions
  else .ok c

end Config

end WikiMount
