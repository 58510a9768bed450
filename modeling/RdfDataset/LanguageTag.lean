import RdfDataset.Text.Split

/-!
# Language tags

A language tag is a sequence of subtags with hyphens between them: a language, then in this order up to three
extended languages, a script, a region, variants, extensions and subtags for private use.  A tag can also consist
of private-use subtags alone, and a few old tags are taken as they are.

* `read` lower-cases a tag and checks it subtag by subtag; `Error` says what the first wrong subtag is.
-/

namespace RdfDataset.LanguageTag

/-- What is wrong with a language tag. -/
inductive Error
  | emptySubtag
  | longSubtag
  | language
  | subtag
  | extendedLanguages
  | emptyExtension
  | emptyPrivateUse
  deriving DecidableEq, Repr

/-- The wording of an error. -/
def Error.message : Error → String
  | .emptySubtag => "A subtag should not be empty"
  | .longSubtag => "A subtag may be eight characters in length at maximum"
  | .language => "The given language subtag is invalid"
  | .subtag => "A subtag fails to parse, it does not match any other subtags"
  | .extendedLanguages => "At maximum three extlangs are allowed"
  | .emptyExtension => "If an extension subtag is present, it must not be empty"
  | .emptyPrivateUse => "If the `x` subtag is present, it must not be empty"

/-- The tags that are taken as a whole. -/
def grandfathered : List String :=
  ["art-lojban", "cel-gaulish", "en-gb-oed", "i-ami", "i-bnn", "i-default", "i-enochian", "i-hak", "i-klingon",
    "i-lux", "i-mingo", "i-navajo", "i-pwn", "i-tao", "i-tay", "i-tsu", "no-bok", "no-nyn", "sgn-be-fr",
    "sgn-be-nl", "sgn-ch-de", "zh-guoyu", "zh-hakka", "zh-min", "zh-min-nan", "zh-xiang"]

/-- What has been read of a tag. -/
inductive Stage
  | start
  | language (extended : Nat)
  | longLanguage
  | script
  | region
  | extension (isEmpty : Bool)
  | privateUse (isEmpty : Bool)
  deriving DecidableEq, Repr

/-- The stages after which a script can come. -/
def Stage.beforeScript : Stage → Bool
  | .language _ | .longLanguage => true
  | _ => false

/-- The stages after which a region can come. -/
def Stage.beforeRegion (s : Stage) : Bool :=
  s.beforeScript || s = .script

/-- The stages after which a variant can come. -/
def Stage.beforeVariant (s : Stage) : Bool :=
  s.beforeRegion || s = .region

/-- A subtag is one to eight bytes long. -/
def checkLength (subtag : List Char) : Except Error Unit :=
  if subtag.isEmpty then .error .emptySubtag
  else if Text.utf8Length subtag > 8 then .error .longSubtag
  else .ok ()

/-- A subtag that can name a variant: five or more letters and digits, or four that begin with a digit. -/
def isVariant (subtag : List Char) : Bool :=
  subtag.all Char.isAlphanum
    && (subtag.length ≥ 5 || (subtag.length ≥ 4 && (subtag.head?.map Char.isDigit).getD false))

/-- The stage after one more subtag. -/
def Stage.next (stage : Stage) (subtag : List Char) : Except Error Stage := do
  checkLength subtag
  let alphabetic := subtag.all Char.isAlpha
  let alphanumeric := subtag.all Char.isAlphanum
  let length := subtag.length
  match stage with
  | .start =>
    if length < 2 || !alphabetic then throw .language
    else if length < 4 then return .language 0
    else return .longLanguage
  | .privateUse _ => if alphanumeric then return .privateUse false else throw .subtag
  | stage =>
    if length = 1 && alphanumeric then
      if stage = .extension true then throw .emptyExtension
      else if subtag = ['x'] then return .privateUse true
      else return .extension true
    else
      match stage with
      | .extension _ => if alphanumeric then return .extension false else throw .subtag
      | stage =>
        match stage, length = 3 && alphabetic with
        | .language extended, true =>
          if extended < 3 then return .language (extended + 1) else throw .extendedLanguages
        | _, _ =>
          if stage.beforeScript && length = 4 && alphabetic then return .script
          else if stage.beforeRegion && ((length = 2 && alphabetic) || (length = 3 && subtag.all Char.isDigit)) then
            return .region
          else if stage.beforeVariant && isVariant subtag then return .region
          else throw .subtag

/-- Checks the subtags of a tag that begins with a language. -/
def checkSubtags (subtags : List (List Char)) : Except Error Unit := do
  match ← subtags.foldlM Stage.next .start with
  | .extension true => throw .emptyExtension
  | .privateUse true => throw .emptyPrivateUse
  | _ => return ()

/-- Checks the subtags of a tag that is for private use as a whole. -/
def checkPrivateUse (subtags : List (List Char)) : Except Error Unit :=
  subtags.forM fun subtag => do
    checkLength subtag
    if !subtag.all Char.isAlphanum then throw .subtag

/-- Checks a tag in lower case. -/
def check (tag : List Char) : Except Error Unit :=
  if grandfathered.contains (String.ofList tag) then .ok ()
  else
    match tag with
    | ['x', '-'] => .error .emptyPrivateUse
    | 'x' :: '-' :: subtags => checkPrivateUse (Text.splitOn (· == '-') subtags)
    | _ => checkSubtags (Text.splitOn (· == '-') tag)

/-- The tag in lower case, if it is one. -/
def read (tag : String) : Except Error String := do
  let lower := tag.toList.map Char.toLower
  check lower
  return String.ofList lower

end RdfDataset.LanguageTag
