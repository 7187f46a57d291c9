import TypeSignature.Json.Token

/-!
# Reader — from words to a document

The words are read once, from the left, while the sequences and maps that are open wait in order,
innermost first.  Each finished value goes to the innermost of them; the reading ends when a value
is finished and none is open.  A word that may not stand where it does ends the reading too: all
that is open is then closed as it is and marked incomplete.
-/

namespace TypeSignature.Json

/-- A sequence or map that is open; what it holds so far is in reverse. -/
inductive Frame where
  /-- A sequence. -/
  | items (done : List Document)
  /-- A map, between two members. -/
  | members (done : List (Option Text × Document))
  /-- A map, behind the key of a member. -/
  | member (done : List (Option Text × Document)) (key : Option Text)
  deriving Repr

namespace Frame

/-- A frame that has received a value. -/
def add (value : Document) : Frame → Frame
  | items done => items (value :: done)
  | members done => members done
  | member done key => members ((key, value) :: done)

/-- What a frame holds when the text is at fault inside it.  A key that has no value yet has an
absent one. -/
def abandon : Frame → Document
  | items done => .sequence done.reverse false
  | members done => .map done.reverse false
  | member done key => .map ((key, .absent) :: done).reverse false

end Frame

/-- The document of which some frames are still open, when the text is at fault. -/
def abandonAll : List Frame → Document
  | [] => .absent
  | frame :: frames => frames.foldl (fun inner outer => (outer.add inner).abandon) frame.abandon

/-- What may come next. -/
inductive Expecting where
  /-- A value. -/
  | value
  /-- A value, or the end of a sequence that has just begun. -/
  | firstItem
  /-- A key. -/
  | key
  /-- A key, or the end of a map that has just begun. -/
  | firstKey
  /-- The colon behind a key. -/
  | colon
  /-- A comma, or the end of the innermost sequence or map. -/
  | next
  deriving DecidableEq, Repr

/-- What a word leads to. -/
inductive Outcome where
  /-- More is to come. -/
  | expect (expecting : Expecting) (frames : List Frame)
  /-- A value is finished; the frames are those around it. -/
  | finished (value : Document) (frames : List Frame)
  /-- The word may not stand here. -/
  | fault
  deriving Repr

/-- A word where a value may begin. -/
def beginValue (token : Token) (frames : List Frame) : Outcome :=
  match token with
  | .string s => .finished (s.elim .unreadable .string) frames
  | .scalar value => .finished value frames
  | .openSequence => .expect .firstItem (.items [] :: frames)
  | .openMap => .expect .firstKey (.members [] :: frames)
  | _ => .fault

/-- A word where a member of a map may begin. -/
def beginMember (token : Token) (frames : List Frame) : Outcome :=
  match token, frames with
  | .string key, .members done :: frames => .expect .colon (.member done key :: frames)
  | _, _ => .fault

/-- A word where the innermost sequence or map may end. -/
def endFrame (token : Token) (frames : List Frame) : Outcome :=
  match token, frames with
  | .closeSequence, .items done :: frames => .finished (.sequence done.reverse true) frames
  | .closeMap, .members done :: frames => .finished (.map done.reverse true) frames
  | _, _ => .fault

/-- A word behind a finished value. -/
def afterValue (token : Token) (frames : List Frame) : Outcome :=
  match token, frames with
  | .comma, .items _ :: _ => .expect .value frames
  | .comma, .members _ :: _ => .expect .key frames
  | _, _ => endFrame token frames

/-- What the next word leads to. -/
def step (expecting : Expecting) (token : Token) (frames : List Frame) : Outcome :=
  match expecting, token with
  | .value, _ => beginValue token frames
  | .firstItem, .closeSequence => endFrame token frames
  | .firstItem, _ => beginValue token frames
  | .key, _ => beginMember token frames
  | .firstKey, .closeMap => endFrame token frames
  | .firstKey, _ => beginMember token frames
  | .colon, .colon => .expect .value frames
  | .colon, _ => .fault
  | .next, _ => afterValue token frames

/-- Reads words until the document is finished or at fault; gives the words left over. -/
def readFrom : Expecting → List Frame → List Token → Document × List Token
  | _, frames, [] => (abandonAll frames, [])
  | expecting, frames, token :: tokens =>
    match step expecting token frames with
    | .expect expecting frames => readFrom expecting frames tokens
    | .finished value [] => (value, tokens)
    | .finished value (frame :: frames) => readFrom .next (frame.add value :: frames) tokens
    | .fault => (abandonAll frames, [])

/-- The document that a text begins with, and whether nothing follows it. -/
def read (s : Text) : Document × Bool :=
  let (document, rest) := readFrom .value [] (words s)
  (document, rest.isEmpty)

end TypeSignature.Json
