import AquaTimestamp.Support.JsonText
import AquaTimestamp.Support.Lines
import AquaTimestamp.Support.Overflow
import AquaTimestamp.Support.Partition
import AquaTimestamp.Support.Trim

/-!
# The known-servers file

`known_servers.rs` of the client crate: which DID was seen at which base URL, one JSON
line for each URL.  The file is read when it is opened and rewritten as a whole by each
record, in the order in which a hash map is iterated.

How `serde_json` prints and parses a line is a parameter.
-/

namespace AquaTimestamp

open Support JsonCodec

namespace KnownServers

/-- `Entry`. -/
structure Entry where
  baseUrl : String
  did : String
  firstSeenAt : U64
  lastSeenAt : U64
  deriving DecidableEq

/-- A `u64` of an entry. -/
def u64Member : JsonCodec U64 :=
  u64.via Fin.val fun n => .ok (Fin.ofNat (2 ^ 64) n)

/-- The members of an entry. -/
def Entry.members (e : Entry) : List (String × JsonValue) :=
  [("base_url", string.encode e.baseUrl), ("did", string.encode e.did),
    ("first_seen_at", u64Member.encode e.firstSeenAt),
    ("last_seen_at", u64Member.encode e.lastSeenAt)]

def Entry.json : JsonCodec Entry where
  encode e := .obj e.members
  decode j := do
    let names := ["base_url", "did", "first_seen_at", "last_seen_at"]
    let baseUrl ← j.required names "base_url" string
    let did ← j.required names "did" string
    let firstSeenAt ← j.required names "first_seen_at" u64Member
    let lastSeenAt ← j.required names "last_seen_at" u64Member
    .ok ⟨baseUrl, did, firstSeenAt, lastSeenAt⟩

/-- `normalise`: without the slashes at the end. -/
def normalise (baseUrl : String) : String :=
  String.ofList (baseUrl.toList.reverse.dropWhile (· = '/')).reverse

/-! ## Reading -/

/-- The entry of a line; blank lines and lines that do not parse have none. -/
def entryOf (t : JsonText) (line : List Char) : Option Entry :=
  if line.all isWhitespace then none
  else (t.parse line >>= Entry.json.decode).toOption

/-- `read_entries`.  Of two lines with one URL the later is kept.  A line that is not
UTF-8 is an error of the whole file. -/
def readEntries (t : JsonText) (file : Option ByteArray) :
    Except String (Partition String Entry) :=
  match file with
  | none => .ok ∅
  | some bytes =>
      match String.fromUTF8? bytes with
      | none => .error "stream did not contain valid UTF-8"
      | some text =>
          .ok ((∅ : Partition String Entry).insertMany
            (((lines text.toList).filterMap (entryOf t)).map fun e => (e.baseUrl, e)))

/-- What `flush` writes, for the order in which the map is iterated. -/
def flushed (t : JsonText) (order : List Entry) : ByteArray :=
  (String.ofList (unlines (order.map fun e => t.print (Entry.json.encode e)))).toUTF8

end KnownServers

open KnownServers

/-- `KnownServersFile`, without its path. -/
@[ext]
structure KnownServersFile where
  entries : Partition String Entry

/-- The arguments of `record`, and the time it reads. -/
structure RecordCall where
  baseUrl : String
  did : String
  now : U64

namespace KnownServersFile

/-- `open`. -/
def openAt (t : JsonText) (file : Option ByteArray) : Except String KnownServersFile :=
  (readEntries t file).map KnownServersFile.mk

/-- `lookup`. -/
def lookup (f : KnownServersFile) (baseUrl : String) : Option String :=
  f.entries[normalise baseUrl]?.map Entry.did

/-- The map as `record` leaves it. -/
def record (f : KnownServersFile) (call : RecordCall) : KnownServersFile :=
  let key := normalise call.baseUrl
  match f.entries[key]? with
  | some e => ⟨f.entries.insert key { e with did := call.did, lastSeenAt := call.now }⟩
  | none => ⟨f.entries.insert key ⟨key, call.did, call.now, call.now⟩⟩

end KnownServersFile

/-! ## Runs -/

/-- The file, the handle on it, and the records so far, newest first. -/
structure KnownServersWorld where
  file : Option ByteArray
  handle : Option KnownServersFile
  records : List RecordCall

namespace KnownServersWorld

/-- No handle yet on a file that is there, or not. -/
def fresh (file : Option ByteArray) : KnownServersWorld :=
  ⟨file, none, []⟩

/-- One step: the file is opened while there is no handle, the handle is dropped, or a
record succeeds; the rename replaces the file at once. -/
inductive Step (t : JsonText) : KnownServersWorld → KnownServersWorld → Prop where
  | opens {w : KnownServersWorld} {f : KnownServersFile} :
      w.handle = none → KnownServersFile.openAt t w.file = .ok f →
      Step t w { w with handle := some f }
  | drops {w : KnownServersWorld} : Step t w { w with handle := none }
  | records {w : KnownServersWorld} {f : KnownServersFile} {order : List Entry}
      (call : RecordCall) :
      w.handle = some f → order.Perm (f.record call).entries.inOrder →
      Step t w ⟨some (flushed t order), some (f.record call), call :: w.records⟩

/-- A run. -/
def Steps (t : JsonText) : KnownServersWorld → KnownServersWorld → Prop :=
  Relation.ReflTransGen (Step t)

end KnownServersWorld

end AquaTimestamp
