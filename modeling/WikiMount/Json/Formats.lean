import WikiMount.Access.GrantTable
import WikiMount.Config
import WikiMount.Json.Codec
import WikiMount.Node.Entry
import WikiMount.RequestId
import WikiMount.Storage.Document

/-! # JSON formats
How references, documents, grant tables, configurations and directory entries are written as JSON. A
configuration may leave out any field, a grant table its rules. -/

namespace WikiMount.Json

/-! ## References -/

instance : Codec Space where
  encode s := .ofMembers [("segments", encode s.segments)]
  decode? v := do
    let f ← Fields.ofValue? ["segments"] v
    return ⟨← f.required? "segments"⟩

instance : Codec Page where
  encode p := .ofMembers [("space", encode p.space), ("name", encode p.name)]
  decode? v := do
    let f ← Fields.ofValue? ["space", "name"] v
    return ⟨← f.optional? "space", ← f.required? "name"⟩

instance : Codec Attachment where
  encode a := .ofMembers [("page", encode a.page), ("filename", encode a.file)]
  decode? v := do
    let f ← Fields.ofValue? ["page", "filename"] v
    return ⟨← f.required? "page", ← f.required? "filename"⟩

instance : Codec Entity where
  encode
    | .space s => .ofMembers [("Space", encode s)]
    | .page p => .ofMembers [("Page", encode p)]
    | .attachment a => .ofMembers [("Attachment", encode a)]
  decode? v :=
    match choice? v with
    | some ("Space", some content) => (decode? content).map .space
    | some ("Page", some content) => (decode? content).map .page
    | some ("Attachment", some content) => (decode? content).map .attachment
    | _ => none

instance : Codec Document where
  encode d := .ofMembers
    [("reference", encode d.reference), ("content", encode d.content), ("parent", encode d.parent),
      ("created_at", encode d.createdAt), ("updated_at", encode d.updatedAt),
      ("locale", encode d.locale), ("is_new", encode d.isNew)]
  decode? v := do
    let f ← Fields.ofValue?
      ["reference", "content", "parent", "created_at", "updated_at", "locale", "is_new"] v
    return ⟨← f.required? "reference", ← f.required? "content", ← f.optional? "parent",
      ← f.required? "created_at", ← f.required? "updated_at", ← f.required? "locale",
      ← f.required? "is_new"⟩

/-! ## Rights and grant tables -/

instance : Codec Right where
  encode r := .ofString r.name
  decode? := plainChoice? ([.view, .edit, .delete, .overwrite].map fun r : Right => (r.name, r))

instance : Codec Effect where
  encode
    | .allow => .ofString "allow"
    | .deny => .ofString "deny"
  decode? := plainChoice? [("allow", .allow), ("deny", .deny)]

instance : Codec Scope where
  encode
    | .wiki => .ofString "wiki"
    | .space s => .ofMembers [("space", encode s)]
    | .page p => .ofMembers [("page", encode p)]
  decode? v :=
    match choice? v with
    | some ("space", some content) => (decode? content).map .space
    | some ("page", some content) => (decode? content).map .page
    | _ => plainChoice? [("wiki", .wiki)] v

instance : Codec Rule where
  encode r := .ofMembers
    [("right", encode r.right), ("scope", encode r.scope), ("effect", encode r.effect)]
  decode? v := do
    let f ← Fields.ofValue? ["right", "scope", "effect"] v
    return ⟨← f.required? "right", ← f.required? "scope", ← f.required? "effect"⟩

instance : Codec GrantTable where
  encode t := .ofMembers [("default_effect", encode t.fallback), ("rules", encode t.rules)]
  decode? v := do
    let f ← Fields.ofValue? ["default_effect", "rules"] v
    return ⟨← f.required? "default_effect", ← f.withDefault? "rules" []⟩

/-! ## Configurations -/

instance : Codec Thresholds where
  encode t := .ofMembers
    [("one_letter", encode t.oneLetter), ("two_letters", encode t.twoLetters),
      ("three_letters", encode t.threeLetters)]
  decode? v := do
    let f ← Fields.ofValue? ["one_letter", "two_letters", "three_letters"] v
    return ⟨← f.withDefault? "one_letter" Thresholds.standard.oneLetter,
      ← f.withDefault? "two_letters" Thresholds.standard.twoLetters,
      ← f.withDefault? "three_letters" Thresholds.standard.threeLetters⟩

instance : Codec Config where
  encode c := .ofMembers
    [("grouping", encode c.grouping), ("placeholder_content", encode c.placeholder),
      ("home_page", encode c.homePage), ("default_locale", encode c.defaultLocale),
      ("session_capacity", encode c.sessionCapacity),
      ("session_max_idle_secs", encode c.sessionMaxIdle)]
  decode? v := do
    let f ← Fields.ofValue?
      ["grouping", "placeholder_content", "home_page", "default_locale", "session_capacity",
        "session_max_idle_secs"] v
    return ⟨← f.withDefault? "grouping" Config.standard.grouping,
      ← f.withDefault? "placeholder_content" Config.standard.placeholder,
      ← f.withDefault? "home_page" Config.standard.homePage,
      ← f.withDefault? "default_locale" Config.standard.defaultLocale,
      ← f.withDefault? "session_capacity" Config.standard.sessionCapacity,
      ← f.withDefault? "session_max_idle_secs" Config.standard.sessionMaxIdle⟩

/-! ## Directory entries -/

def entryKinds : List (String × EntryKind) :=
  [("view", .view), ("space", .space), ("letter_group", .letterGroup), ("page", .page),
    ("attachment", .attachment), ("wiki_file", .wikiFile), ("temp_file", .tempFile)]

instance : Codec EntryKind where
  encode kind := .ofString (((entryKinds.find? (·.2 == kind)).map Prod.fst).getD "")
  decode? := plainChoice? entryKinds

instance : Codec Entry where
  encode e := .ofMembers
    [("name", encode e.name), ("path", encode e.path), ("kind", encode e.kind),
      ("is_collection", encode e.isCollection), ("reference", encode e.reference)]
  decode? v := do
    let f ← Fields.ofValue? ["name", "path", "kind", "is_collection", "reference"] v
    return ⟨← f.required? "name", ← f.required? "path", ← f.required? "kind",
      ← f.required? "is_collection", ← f.optional? "reference"⟩

/-- What is known about a node, as JSON. -/
def ofStat (s : Stat) : Value :=
  .ofMembers
    [("entry", encode s.entry), ("exists", encode s.isPresent), ("size", encode s.size),
      ("created_at", encode s.createdAt), ("updated_at", encode s.updatedAt)]

end WikiMount.Json

namespace WikiMount.Config

/-- Why a JSON text is no usable configuration. -/
inductive LoadError
  | unreadable
  | invalid (cause : ConfigError)

/-- Reads a configuration and checks it. -/
def ofJson (text : String) : Except LoadError Config :=
  match Json.ofText? text with
  | none => .error .unreadable
  | some c => (validate c).mapError .invalid

end WikiMount.Config
