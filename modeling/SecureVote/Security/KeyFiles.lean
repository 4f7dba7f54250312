import SecureVote.Security.BlindSignature
import SecureVote.Text.Lines

/-!
# The key files of an election (`security/blind_signature.py`)

`generate_blind_signing_keypair` and `_load_keys` for one election of one instance, step by step on
the file system: threads of any processes, each process with its key cache and the lock around it.
Any operation on a file may fail, and a process may end between any two steps. A directory is
renamed in one step, and not onto a directory that has entries.
-/

namespace SecureVote.KeyFiles

open Py

/-! ### Key pairs as files -/

/-- The serialization of keys. Of what a loader returns, the outer `none` is an exception, and the
inner one a key that is not RSA. -/
structure KeyLib where
  lib : Lib
  privatePem : PrivateKey → Bytes
  publicPem : PublicKey → Bytes
  loadPrivate : Bytes → Option (Option PrivateKey)
  loadPublic : Bytes → Option (Option PublicKey)
  loadPrivate_pem (k : PrivateKey) : loadPrivate (privatePem k) = some (some k)
  loadPublic_pem (k : PublicKey) : loadPublic (publicPem k) = some (some k)
  /-- `json.loads` reads objects. -/
  one_le_limit : 1 ≤ lib.recursionLimit

/-- The files of a key directory, in the order they are written: `PRIVATE_KEY_FILE`,
`PUBLIC_KEY_FILE` and `KEY_METADATA_FILE`. -/
inductive FileName
  | privateKey
  | publicKey
  | metadata
  deriving DecidableEq

/-- The file that is written next. -/
def FileName.next : FileName → Option FileName
  | .privateKey => some .publicKey
  | .publicKey => some .metadata
  | .metadata => none

/-- `KEY_ALGORITHM` -/
def KEY_ALGORITHM : PyStr := py "rsa-2048-fdh-sha256"

variable (K : KeyLib) (electionId : ℕ)

/-- The metadata of a public key. -/
def keyMetadata (pub : PublicKey) : Json :=
  .obj [(py "algorithm", .str KEY_ALGORITHM), (py "election_id", .int electionId),
    (py "public_key_sha256", .str (fingerprint K.lib pub))]

/-- What is written to a file for a key pair. -/
def contents (k : KeyPair) : FileName → Bytes
  | .privateKey => K.privatePem k.privateKey
  | .publicKey => K.publicPem k.publicKey
  | .metadata => asciiBytes (dumps (keyMetadata K electionId k.publicKey))

/-- `BlindSigningKeyError` about the election. -/
def keyError (before after : String) : PyError :=
  .blindSigningKeyError (before ++ toString electionId ++ after)

/-- `_load_and_validate_keypair`, once the three files are read. -/
def validateKeypair (priv pub metadata : Bytes) : Except PyError KeyPair :=
  match K.loadPrivate priv, K.loadPublic pub,
      (readText metadata).map (loads K.lib.recursionLimit) with
  | some privateKey, some publicKey, some (.ok metadata) =>
      match privateKey, publicKey with
      | some privateKey, some publicKey =>
          if h : validPair privateKey publicKey = true then
            if pyEq metadata (keyMetadata K electionId publicKey) then
              .ok ⟨privateKey, publicKey, h⟩
            else .error
              (keyError electionId "The blind-signing metadata for election " " is invalid.")
          else .error
            (keyError electionId "The blind-signing keypair for election " " failed validation.")
      | _, _ => .error (.blindSigningKeyError "Blind-signing keys must be RSA keys.")
  -- `RecursionError` is no `ValueError`
  | some _, some _, some (.error .recursion) => .error .recursionError
  | _, _, _ => .error (keyError electionId "The blind-signing keypair for election " " is invalid.")

/-! ### The file system -/

/-- A file, and the process that wrote it, which nothing reads. -/
structure File where
  bytes : Bytes
  writer : ℕ

/-- A directory of key files. -/
abbrev Dir := FileName → Option File

/-- The directory `KEY_ROOT` of an instance: whether it exists, the key directory of the election,
and the temporary directories, by a number that `mkdtemp` gives out once. -/
structure KeyRoot where
  made : Bool
  keyDir : Option Dir
  temps : ℕ → Option Dir
  nextTemp : ℕ

/-- Nothing has been created. -/
def KeyRoot.empty : KeyRoot := ⟨false, none, fun _ => none, 0⟩

/-! ### Calls -/

/-- The two entry points. -/
inductive Call
  | generate
  | load
  deriving DecidableEq

/-- How far a thread has come. -/
inductive Stage
  | idle
  | waiting (c : Call)
  | checking (c : Call)
  | probing
  | makingRoot
  | generating
  | makingTemp (k : KeyPair)
  | creating (k : KeyPair) (t : ℕ) (f : FileName)
  | writing (k : KeyPair) (t : ℕ) (f : FileName) (n : ℕ)
  | publishing (k : KeyPair) (t : ℕ)
  | adopting (t : ℕ)
  | cleaning (t : ℕ) (raised : Option PyError)
  | removing (t : ℕ) (raised : Option PyError)
  | locating (c : Call)
  | listing (c : Call) (f : FileName)
  | readingPrivate (c : Call)
  | readingPublic (c : Call) (priv : Bytes)
  | readingMetadata (c : Call) (priv pub : Bytes)
  | storing (c : Call) (priv pub metadata : Bytes)
  | leaving (c : Call) (result : Except PyError KeyPair)

/-- What a thread sees: the file system, and the cache and the lock of its process. -/
structure View where
  root : KeyRoot
  cache : Option KeyPair
  locked : Bool

/-- A temporary directory is replaced. -/
def KeyRoot.setTemp (r : KeyRoot) (t : ℕ) (d : Option Dir) : KeyRoot :=
  { r with temps := Function.update r.temps t d }

/-- A file of a temporary directory with files `d` is replaced. -/
def KeyRoot.setFile (r : KeyRoot) (t : ℕ) (d : Dir) (f : FileName) (x : Option File) : KeyRoot :=
  r.setTemp t (some (Function.update d f x))

/-- After the `finally` block: the exception goes on, or the pair is loaded. -/
def afterCleanup : Option PyError → Stage
  | none => .locating .generate
  | some e => .leaving .generate (.error e)

/-- The election id is short enough to be put into a path. -/
def HasPath : Prop := (natRepr 10 electionId).length ≤ maxStrDigits

/-- Where `exists` or `is_file` raises at a stage. -/
def statFails : Stage → Option Stage
  | .probing => some (.leaving .generate (.error .osError))
  | .adopting t => some (.cleaning t (some .osError))
  | .cleaning _ _ => some (.leaving .generate (.error .osError))
  | .locating c | .listing c _ => some (.leaving c (.error .osError))
  | _ => none

/-- One step of a thread of process `w` within a call. -/
inductive Move (w : ℕ) : View → Stage → View → Stage → Prop
  | enter {v : View} {c : Call} : v.locked = false →
      Move w v (.waiting c) { v with locked := true } (.checking c)
  | statFailed {v : View} {s s' : Stage} : statFails s = some s' → Move w v s v s'
  -- the cache, and the paths
  | hit {v : View} {c : Call} {k : KeyPair} : v.cache = some k →
      Move w v (.checking c) v (.leaving c (.ok k))
  | noPath {v : View} {c : Call} : v.cache = none → ¬HasPath electionId →
      Move w v (.checking c) v (.leaving c (.error .valueError))
  | missGenerate {v : View} : v.cache = none → HasPath electionId →
      Move w v (.checking .generate) v .probing
  | missLoad {v : View} : v.cache = none → HasPath electionId →
      Move w v (.checking .load) v (.locating .load)
  | present {v : View} : v.root.keyDir.isSome → Move w v .probing v (.locating .generate)
  | absent {v : View} : v.root.keyDir = none → Move w v .probing v .makingRoot
  | rootMade {v : View} :
      Move w v .makingRoot { v with root := { v.root with made := true } } .generating
  | rootFailed {v : View} : Move w v .makingRoot v (.leaving .generate
      (.error (.blindSigningKeyError "Could not create the blind-signing key directory.")))
  -- a new pair, and its temporary directory
  | generated {v : View} (k : KeyPair) : Move w v .generating v (.makingTemp k)
  | generateFailed {v : View} : Move w v .generating v
      (.leaving .generate (.error (keyError electionId "Could not generate a keypair for election " ".")))
  | tempMade {v : View} {k : KeyPair} : v.root.made = true → Move w v (.makingTemp k)
      { v with root := { (v.root.setTemp v.root.nextTemp (some fun _ => none)) with
        nextTemp := v.root.nextTemp + 1 } } (.creating k v.root.nextTemp .privateKey)
  | tempFailed {v : View} {k : KeyPair} :
      Move w v (.makingTemp k) v (.leaving .generate (.error .osError))
  -- `_write_new_file`, whose `write` may take several steps
  | created {v : View} {k : KeyPair} {t : ℕ} {f : FileName} {d : Dir} : v.root.temps t = some d →
      d f = none → Move w v (.creating k t f)
        { v with root := v.root.setFile t d f (some ⟨[], w⟩) }
        (.writing k t f 0)
  | createFailed {v : View} {k : KeyPair} {t : ℕ} {f : FileName} :
      Move w v (.creating k t f) v (.cleaning t (some .osError))
  | wrote {v : View} {k : KeyPair} {t : ℕ} {f : FileName} {n m : ℕ} {d : Dir} :
      v.root.temps t = some d → n < m → m ≤ (contents K electionId k f).length →
      Move w v (.writing k t f n)
        { v with root := v.root.setFile t d f (some ⟨(contents K electionId k f).take m, w⟩) }
        (.writing k t f m)
  | writeFailed {v : View} {k : KeyPair} {t : ℕ} {f : FileName} {n : ℕ} :
      Move w v (.writing k t f n) v (.cleaning t (some .osError))
  | written {v : View} {k : KeyPair} {t : ℕ} {f g : FileName} :
      f.next = some g → Move w v (.writing k t f (contents K electionId k f).length) v
        (.creating k t g)
  | complete {v : View} {k : KeyPair} {t : ℕ} {f : FileName} :
      f.next = none → Move w v (.writing k t f (contents K electionId k f).length) v (.publishing k t)
  -- publication
  | renamed {v : View} {k : KeyPair} {t : ℕ} {d : Dir} : v.root.temps t = some d →
      (∀ old, v.root.keyDir = some old → ∀ f, old f = none) → Move w v (.publishing k t)
        { v with root := { (v.root.setTemp t none) with keyDir := some d } } (.cleaning t none)
  | renameFailed {v : View} {k : KeyPair} {t : ℕ} : Move w v (.publishing k t) v (.adopting t)
  | adopted {v : View} {t : ℕ} : v.root.keyDir.isSome → Move w v (.adopting t) v (.cleaning t none)
  | notAdopted {v : View} {t : ℕ} : v.root.keyDir = none → Move w v (.adopting t) v
      (.cleaning t (some (keyError electionId "Could not publish the keypair for election " ".")))
  -- the `finally` block
  | clean {v : View} {t : ℕ} {raised : Option PyError} : v.root.temps t = none →
      Move w v (.cleaning t raised) v (afterCleanup raised)
  | remove {v : View} {t : ℕ} {raised : Option PyError} {d : Dir} : v.root.temps t = some d →
      Move w v (.cleaning t raised) v (.removing t raised)
  | removedFile {v : View} {t : ℕ} {raised : Option PyError} {d : Dir} (f : FileName) :
      v.root.temps t = some d → Move w v (.removing t raised)
        { v with root := v.root.setFile t d f none } (.removing t raised)
  | removedDir {v : View} {t : ℕ} {raised : Option PyError} : Move w v (.removing t raised)
      { v with root := v.root.setTemp t none } (afterCleanup raised)
  | removeFailed {v : View} {t : ℕ} {raised : Option PyError} :
      Move w v (.removing t raised) v (.leaving .generate (.error .osError))
  -- `_load_and_validate_keypair`
  | located {v : View} {c : Call} : v.root.keyDir.isSome →
      Move w v (.locating c) v (.listing c .privateKey)
  | notLocated {v : View} {c : Call} : v.root.keyDir = none → Move w v (.locating c) v
      (.leaving c (.error (keyError electionId "No blind-signing keypair exists for election " ".")))
  | listed {v : View} {c : Call} {f g : FileName} {d : Dir} : v.root.keyDir = some d →
      (d f).isSome → f.next = some g → Move w v (.listing c f) v (.listing c g)
  | listedAll {v : View} {c : Call} {f : FileName} {d : Dir} : v.root.keyDir = some d →
      (d f).isSome → f.next = none → Move w v (.listing c f) v (.readingPrivate c)
  | notListed {v : View} {c : Call} {f : FileName} : v.root.keyDir.bind (· f) = none →
      Move w v (.listing c f) v (.leaving c
        (.error (keyError electionId "The blind-signing keypair for election " " is incomplete.")))
  | readPrivate {v : View} {c : Call} {d : Dir} {x : File} : v.root.keyDir = some d →
      d .privateKey = some x → Move w v (.readingPrivate c) v (.readingPublic c x.bytes)
  | readPublic {v : View} {c : Call} {priv : Bytes} {d : Dir} {x : File} :
      v.root.keyDir = some d → d .publicKey = some x →
      Move w v (.readingPublic c priv) v (.readingMetadata c priv x.bytes)
  | readMetadata {v : View} {c : Call} {priv pub : Bytes} {d : Dir} {x : File} :
      v.root.keyDir = some d → d .metadata = some x →
      Move w v (.readingMetadata c priv pub) v (.storing c priv pub x.bytes)
  | readFailed {v : View} {s : Stage} {c : Call} : s = .readingPrivate c ∨
      (∃ priv, s = .readingPublic c priv) ∨ (∃ priv pub, s = .readingMetadata c priv pub) →
      Move w v s v (.leaving c
        (.error (keyError electionId "The blind-signing keypair for election " " is invalid.")))
  | stored {v : View} {c : Call} {priv pub metadata : Bytes} {k : KeyPair} :
      validateKeypair K electionId priv pub metadata = .ok k →
      Move w v (.storing c priv pub metadata) { v with cache := some k } (.leaving c (.ok k))
  | notStored {v : View} {c : Call} {priv pub metadata : Bytes} {e : PyError} :
      validateKeypair K electionId priv pub metadata = .error e →
      Move w v (.storing c priv pub metadata) v (.leaving c (.error e))

/-! ### Processes -/

/-- A thread of a process. -/
structure Thread where
  proc : ℕ
  stage : Stage

/-- The file system, the caches and locks of the processes, and their threads. -/
structure System where
  root : KeyRoot
  caches : ℕ → Option KeyPair
  locks : ℕ → Bool
  threads : List Thread

/-- Before any call. -/
def System.init : System := ⟨.empty, fun _ => none, fun _ => false, []⟩

/-- What a process sees. -/
def System.view (s : System) (p : ℕ) : View := ⟨s.root, s.caches p, s.locks p⟩

/-- The system after a thread of process `p` has changed what it sees. -/
def System.setView (s : System) (p : ℕ) (v : View) : System :=
  { s with
    root := v.root
    caches := Function.update s.caches p v.cache
    locks := Function.update s.locks p v.locked }

/-- A call of process `p` that returns, or nothing that can be seen. -/
abbrev Label := Option (ℕ × Call × Except PyError KeyPair)

/-- One step of the system: a thread starts, calls, moves or returns, or a process ends with all its
threads. -/
inductive Step : System → Label → System → Prop
  | start {s : System} {a b : List Thread} (p : ℕ) : s.threads = a ++ b →
      Step s none { s with threads := a ++ ⟨p, .idle⟩ :: b }
  | refuse {s : System} {a b : List Thread} {p : ℕ} (c : Call) :
      s.threads = a ++ ⟨p, .idle⟩ :: b → electionId < 1 →
      Step s (some (p, c, .error .valueError)) s
  | call {s : System} {a b : List Thread} {p : ℕ} (c : Call) :
      s.threads = a ++ ⟨p, .idle⟩ :: b → 1 ≤ electionId →
      Step s none { s with threads := a ++ ⟨p, .waiting c⟩ :: b }
  | move {s : System} {a b : List Thread} {p : ℕ} {stage stage' : Stage} {v : View} :
      s.threads = a ++ ⟨p, stage⟩ :: b → Move K electionId p (s.view p) stage v stage' →
      Step s none { s.setView p v with threads := a ++ ⟨p, stage'⟩ :: b }
  | returned {s : System} {a b : List Thread} {p : ℕ} {c : Call} {result : Except PyError KeyPair} :
      s.threads = a ++ ⟨p, .leaving c result⟩ :: b →
      Step s (some (p, c, result))
        { s with locks := Function.update s.locks p false, threads := a ++ ⟨p, .idle⟩ :: b }
  | crash {s : System} (p : ℕ) : Step s none
      { s with
        caches := Function.update s.caches p none
        locks := Function.update s.locks p false
        threads := s.threads.filter fun t => t.proc ≠ p }

/-- Any number of steps. -/
inductive Steps : System → System → Prop
  | refl (s : System) : Steps s s
  | step {s₁ s₂ s₃ : System} {l : Label} : Steps s₁ s₂ → Step K electionId s₂ l s₃ → Steps s₁ s₃

end SecureVote.KeyFiles
