import BlockRobot.Json.Token

/-!
# A JSON text as far as it can be read

A `Draft` is the tree that the tokens of a text build, with the faults of the text
left standing where they were met.  It is made without knowing what is wanted: a
reader then walks it in the order of the text, and the first thing it objects to,
whether a fault of the text or a value of the wrong sort, is what it reports.
This is why faults are leaves of the tree and not a failure of the tree-builder:
an unknown name at the front of a text is to be reported although the text ends
in the middle of the next line.

## Where faults stand

* `missing f` stands where a value should begin and none does, the text being at
  its end (`cut`) or at some other character (`broken`).  An item after a last
  comma, and the value of a member whose colon is missing, are such.
* `scalar (.spoiled …)` is a scalar that was begun but is not whole.
* an array or object has a *close*: nothing if its bracket closes, otherwise the
  fault met where a comma or the bracket should stand.

After the first fault that no reader gets past, nothing more is read, and the
brackets still open are closed around what there is.  Keys are drafts as well, for a
key can be missing or spoiled; anything else that stands where a key is due is no key.

## How it is built

A `Cursor` holds the brackets still open, innermost first, and what is due.  Each
token moves it on (`Cursor.step`), so building is one pass over the tokens.
-/

namespace BlockRobot

/-- A JSON text as far as it can be read. -/
inductive Draft where
  | missing (f : Fault)
  | scalar (s : Scalar)
  | array (items : List Draft) (close : Option Fault)
  | object (members : List (Draft × Draft)) (close : Option Fault)

namespace Draft

instance : Inhabited Draft := ⟨missing .cut⟩

/-- The draft of a value. -/
def null : Draft := scalar .null

/-- The fault at which a scalar stops even a reader that skips it. -/
def stopOf : Scalar → Option Fault
  | .spoiled _ flaw => flaw.whenSkipped
  | _ => none

/-! ## Skipping -/

/-- The fault a reader meets that wants the name of a member and skips its text. -/
def skipKey : Draft → Option Fault
  | missing f => some f
  | scalar (.text _) => none
  | scalar (.spoiled .text flaw) => flaw.whenSkipped
  | _ => some .broken

mutual

/-- The fault met by a reader that skips a value, if there is one. -/
def skip : Draft → Option Fault
  | missing f => some f
  | scalar s => stopOf s
  | array items close => (skipItems items).or close
  | object members close => (skipMembers members).or close

/-- The first fault in skipped items. -/
def skipItems : List Draft → Option Fault
  | [] => none
  | item :: items => (skip item).or (skipItems items)

/-- The first fault in skipped members. -/
def skipMembers : List (Draft × Draft) → Option Fault
  | [] => none
  | (key, value) :: members => (skipKey key).or ((skip value).or (skipMembers members))

end

end Draft

/-! ## Building -/

/-- A bracket that is still open, with what stands in it, newest first. -/
inductive Frame where
  | array (items : List Draft)
  | object (members : List (Draft × Draft))
  /-- An object of which the value for `key` is to come. -/
  | member (members : List (Draft × Draft)) (key : Draft)

/-- What must come next. -/
inductive Due where
  | value
  | itemOrEnd
  | key
  | keyOrEnd
  | colon
  | separator
deriving DecidableEq

/-- A place in a text: the brackets still open and what is due. -/
structure Cursor where
  frames : List Frame
  due : Due

/-- What a token does: it moves the cursor, it ends the value, or it is not what is
due and ends the reading. -/
inductive Step where
  | on (c : Cursor)
  | whole (d : Draft)
  | stuck (d : Draft)

namespace Frame

/-- The draft of a frame whose bracket closes or is given up. -/
def closed (close : Option Fault) : Frame → Draft
  | array items => .array items.reverse close
  | object members => .object members.reverse close
  | member members key => .object ((key, .missing .broken) :: members).reverse close

/-- A frame with one more part: an item, a key that nothing follows, or the value
for a key. -/
def holding (d : Draft) : Frame → Frame
  | array items => array (d :: items)
  | object members => object ((d, .missing .broken) :: members)
  | member members key => object ((key, d) :: members)

/-- All frames given up around an innermost draft. -/
def enclose (d : Draft) : List Frame → Draft
  | [] => d
  | frame :: frames => enclose ((holding d frame).closed (some .broken)) frames

end Frame

namespace Cursor

/-- Where every text begins. -/
def start : Cursor := ⟨[], .value⟩

/-- The cursor behind a whole value, or behind a key. -/
def accept (d : Draft) : List Frame → Step
  | [] => .whole d
  | .array items :: frames => .on ⟨.array (d :: items) :: frames, .separator⟩
  | .member members key :: frames => .on ⟨.object ((key, d) :: members) :: frames, .separator⟩
  | .object members :: frames => .on ⟨.member members d :: frames, .colon⟩

/-- Closes the innermost bracket. -/
def close (frames : List Frame) : Step :=
  match frames with
  | [] => .stuck (.missing .broken)
  | frame :: frames => accept (frame.closed none) frames

/-- Ends the reading with `f` where a value or a key is due. -/
def giveUpValue (f : Fault) (frames : List Frame) : Draft := Frame.enclose (.missing f) frames

/-- Ends the reading with `f` where a comma or the end of a bracket is due. -/
def giveUpClose (f : Fault) : List Frame → Draft
  | [] => .missing f
  | frame :: frames => Frame.enclose (frame.closed (some f)) frames

/-- Takes a token with which a value begins. -/
def takeValue (frames : List Frame) : Token → Step
  | .scalar s =>
    match Draft.stopOf s with
    | none => accept (.scalar s) frames
    | some _ => .stuck (Frame.enclose (.scalar s) frames)
  | .openArray => .on ⟨.array [] :: frames, .itemOrEnd⟩
  | .openObject => .on ⟨.object [] :: frames, .keyOrEnd⟩
  | _ => .stuck (giveUpValue .broken frames)

/-- Takes a token with which a key begins; only a text is one. -/
def takeKey (frames : List Frame) : Token → Step
  | .scalar (.text s) => takeValue frames (.scalar (.text s))
  | .scalar (.spoiled .text flaw) => takeValue frames (.scalar (.spoiled .text flaw))
  | _ => .stuck (giveUpValue .broken frames)

/-- Takes a comma or a closing bracket. -/
def takeSeparator (frames : List Frame) (token : Token) : Step :=
  match frames, token with
  | .array _ :: _, .comma => .on ⟨frames, .value⟩
  | .array _ :: _, .closeArray => close frames
  | .object _ :: _, .comma => .on ⟨frames, .key⟩
  | .object _ :: _, .closeObject => close frames
  | _, _ => .stuck (giveUpClose .broken frames)

/-- What a token does at a cursor. -/
def step (c : Cursor) (token : Token) : Step :=
  match c.due, token with
  | .itemOrEnd, .closeArray => close c.frames
  | .keyOrEnd, .closeObject => close c.frames
  | .colon, .colon => .on ⟨c.frames, .value⟩
  | .colon, _ => .stuck (giveUpValue .broken c.frames)
  | .separator, token => takeSeparator c.frames token
  | .key, token | .keyOrEnd, token => takeKey c.frames token
  | .value, token | .itemOrEnd, token => takeValue c.frames token

/-- The draft of a text that ends at a cursor. -/
def atEnd (c : Cursor) : Draft :=
  match c.due with
  | .value | .key | .colon => giveUpValue .cut c.frames
  | .itemOrEnd | .keyOrEnd | .separator => giveUpClose .cut c.frames

end Cursor

/-- What a text holds: a value, and whether anything but blanks follows it. -/
structure Reading where
  draft : Draft
  leftover : Bool

namespace Reading

/-- The tokens from a cursor on. -/
def ofTokens (c : Cursor) : List Token → Reading
  | [] => ⟨c.atEnd, false⟩
  | token :: tokens =>
    match c.step token with
    | .on c => ofTokens c tokens
    | .whole d => ⟨d, !tokens.isEmpty⟩
    | .stuck d => ⟨d, false⟩

/-- What a text holds. -/
def ofText (cs : List Char) : Reading := ofTokens .start (Token.ofText cs)

end Reading

end BlockRobot
