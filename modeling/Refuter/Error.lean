import Refuter.Clause
import Refuter.Json.Basic
import Refuter.Sentence.Fault

/-! # Errors

Every cause for which an operation of the library gives up, and the one place
where each gets its words.
-/

namespace Refuter

/-- Why an operation gave up. -/
inductive Error where
  /-- A sentence or query cannot be read. -/
  | malformed (sentence : String) (fault : Fault)
  /-- A sentence that is no text. -/
  | notText (value : Json)
  /-- A value in which nothing can be substituted. -/
  | notSubject (value : Json)
  /-- A binding that would lead back to its own variable. -/
  | occurs (name : String) (term : Term)
  /-- A clause without a number in a working set; its text. -/
  | unnumbered (clause : String)
  /-- Two clauses of one number in a working set; the text of the number. -/
  | duplicateNumber (id : String)
  /-- No clause has this number; how the number is shown. -/
  | unknownClause (shown : String)
  /-- A derivation can be finished once only. -/
  | alreadyFinished
  /-- The search ran into its cap undecided. -/
  | limitExceeded (limit : Int)
  /-- A cap below one. -/
  | capNotPositive (value : Int)
  /-- A cap that is no number; its kind. -/
  | capNotNumber (kind : String)
  /-- No loop of this name. -/
  | unknownLoop (name : String) (known : List String)
  /-- A loop name that is no text. -/
  | loopNotNamed
  /-- Something registered as a loop that is none. -/
  | notALoop (shown : String)
  /-- No outcome of this name; how the name is shown. -/
  | unknownOutcome (shown : String)
  /-- An object lacks a field. -/
  | missingField (name : String)
  /-- A text that is not JSON. -/
  | malformedJson
  /-- A whole number with more digits than are read. -/
  | oversized (digits : Nat)
  /-- A whole number with more digits than are written. -/
  | unwritable
  /-- A value other than a clause in a list of clauses. -/
  | notAClause
  /-- Two clause numbers of which none is the larger one; their kinds. -/
  | notComparable (kind other : String)
  /-- A clause number that has no successor; its kind. -/
  | notANumber (kind : String)
  /-- A value of a kind that has no items. -/
  | noItems (kind : String)
  /-- A value of a kind that has no members. -/
  | noMembers (kind : String)
  /-- A value of a kind by which nothing can be found. -/
  | noKey (kind : String)
  /-- A term that cannot be told, because its name is no text; was it to be shown in
      a message, and the kind of the name. -/
  | nameNotText (quoted : Bool) (kind : String)
  /-- A value of a kind under which nothing can be written. -/
  | noMemberName (kind : String)
  /-- A binding in a list of bindings that has no parts. -/
  | notAPair (index : Nat)
  /-- A binding in a list of bindings that does not have two parts. -/
  | wrongPair (index length : Nat)
  /-- No file format of this name. -/
  | unknownFormat (name : String)
  /-- No file format for this extension. -/
  | unknownExtension (suffix : String)
  /-- Neither a format nor a file was named. -/
  | noFormat
  /-- A settings document that is no mapping. -/
  | notMapping (path kind : String)
  /-- A section of the settings that is no mapping. -/
  | sectionNotMapping
  /-- A cap in the settings that is no whole number. -/
  | stepsNotInteger (value : Json)
  /-- A cap in the settings below one. -/
  | stepsNotPositive (value : Int)
  /-- A cap in the settings beyond all whole numbers. -/
  | stepsInfinite
  /-- There is no such file. -/
  | fileMissing (path : String)
  /-- A directory where a file is needed. -/
  | isDirectory (path : String)
  /-- A file where a directory is needed on the way. -/
  | notDirectory (path : String)
  /-- A file where a directory is to be made. -/
  | fileExists (path : String)
  /-- A path with a character that no path can have. -/
  | nullInPath
  /-- A path that is too long, or has a name that is. -/
  | nameTooLong (path : String)
  /-- What the system does not permit. -/
  | permissionDenied (path : String)
  /-- A path that is no text; its kind. -/
  | notAPath (kind : String)
  /-- A settings document with a character that none can have. -/
  | strayCharacter (c : Char)
  /-- A number in a settings document without any digit; the base it would have. -/
  | noDigits (base : Nat)
  /-- A settings document that cannot be cut into its parts. -/
  | unscannable
  /-- A settings document whose parts do not fit together. -/
  | unparsable
  /-- A settings document in a notation that is not read. -/
  | unsupported
  /-- An escape for a number beyond all characters. -/
  | beyondCharacters
  /-- An escape for a number beyond those that are looked at. -/
  | beyondEscapes
  /-- A text with a half, which no file can hold. -/
  | unencodable

/-- The text of a whole number. -/
def intText (n : Int) : String :=
  String.ofList (Scalar.intText n)

/-- The words for an error. -/
def Error.message : Error → String
  | .malformed sentence fault => fault.report sentence
  | .notText value => "Expected str, got " ++ value.shown
  | .notSubject value => "Cannot apply a substitution to " ++ value.shown
  | .occurs name term => name ++ " occurs in " ++ term.name
  | .unnumbered clause => "clause " ++ clause ++ " has no id"
  | .duplicateNumber id => "duplicate clause id " ++ id
  | .unknownClause shown => shown
  | .alreadyFinished => "proof already finished"
  | .limitExceeded limit => "No decision after " ++ intText limit ++ " derived clauses"
  | .capNotPositive value => "max_steps must be positive, got " ++ intText value
  | .capNotNumber kind => "'<' not supported between instances of '" ++ kind ++ "' and 'int'"
  | .unknownLoop name known =>
    "Unknown loop " ++ Text.quoted name ++ ", expected one of: " ++ ", ".intercalate known
  | .loopNotNamed => "a loop is chosen by its name"
  | .notALoop shown => shown ++ " is not a Loop subclass"
  | .unknownOutcome shown => shown ++ " is not a valid Outcome"
  | .missingField name => Text.quoted name
  | .malformedJson => "not a JSON text"
  | .oversized digits =>
    "Exceeds the limit (" ++ intText Scalar.maxDigits
      ++ " digits) for integer string conversion: value has " ++ intText digits
      ++ " digits; use sys.set_int_max_str_digits() to increase the limit"
  | .unwritable =>
    "Exceeds the limit (" ++ intText Scalar.maxDigits
      ++ " digits) for integer string conversion; use sys.set_int_max_str_digits() to increase the limit"
  | .notAClause => "a clause is needed"
  | .notComparable kind other =>
    "'>' not supported between instances of '" ++ kind ++ "' and '" ++ other ++ "'"
  | .notANumber "str" => "can only concatenate str (not \"int\") to str"
  | .notANumber kind => "unsupported operand type(s) for +: '" ++ kind ++ "' and 'int'"
  | .noItems kind => "'" ++ kind ++ "' object is not iterable"
  | .noMembers "str" => "string indices must be integers, not 'str'"
  | .noMembers "list" => "list indices must be integers or slices, not str"
  | .noMembers kind => "'" ++ kind ++ "' object is not subscriptable"
  | .noKey kind => "unhashable type: '" ++ kind ++ "'"
  | .nameNotText quoted kind =>
    (if quoted then "__repr__" else "__str__") ++ " returned non-string (type " ++ kind ++ ")"
  | .noMemberName kind => "keys must be str, int, float, bool or None, not " ++ kind
  | .notAPair index =>
    "cannot convert dictionary update sequence element #" ++ intText index ++ " to a sequence"
  | .wrongPair index length =>
    "dictionary update sequence element #" ++ intText index ++ " has length " ++ intText length
      ++ "; 2 is required"
  | .unknownFormat name => "Unknown file format: " ++ name
  | .unknownExtension suffix =>
    "No handler found for file extension: " ++ (if suffix.isEmpty then "(none)" else suffix)
  | .noFormat => "Either format_name or file_path must be provided"
  | .notMapping path kind => "Expected a mapping in " ++ path ++ ", got " ++ kind
  | .sectionNotMapping => "a section of the settings must be a mapping"
  | .stepsNotInteger value => "prover.max_steps must be an integer, got " ++ value.shown
  | .stepsNotPositive value => "prover.max_steps must be positive, got " ++ intText value
  | .stepsInfinite => "cannot convert float infinity to integer"
  | .fileMissing path => "[Errno 2] No such file or directory: " ++ Text.quoted path
  | .isDirectory path => "[Errno 21] Is a directory: " ++ Text.quoted path
  | .notDirectory path => "[Errno 20] Not a directory: " ++ Text.quoted path
  | .fileExists path => "[Errno 17] File exists: " ++ Text.quoted path
  | .nullInPath => "embedded null byte"
  | .nameTooLong path => "[Errno 36] File name too long: " ++ Text.quoted path
  | .permissionDenied path => "[Errno 13] Permission denied: " ++ Text.quoted path
  | .notAPath kind => "expected str, bytes or os.PathLike object, not " ++ kind
  | .strayCharacter _ => "special characters are not allowed"
  | .noDigits base => "invalid literal for int() with base " ++ intText base ++ ": ''"
  | .unscannable => "the settings cannot be cut into their parts"
  | .unparsable => "the parts of the settings do not fit together"
  | .unsupported => "the settings are written in a notation that is not read"
  | .beyondCharacters => "chr() arg not in range(0x110000)"
  | .beyondEscapes => "signed integer is greater than maximum"
  | .unencodable => "surrogates not allowed"

end Refuter
