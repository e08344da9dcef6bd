import Freeclawdia.Rust.Utf8

/-!
# `Extensions.Install` — downloading a WASM extension into its directory

`ExtensionManager::download_and_install_wasm` and `extract_wasm_tar_gz`, over the files of the target
directory. What the network, the archive reader and the disk do is the `Download`: every answer and every
failure they can give, one for each call the code makes.
-/

namespace Freeclawdia.Extensions

open Rust

/-- `ExtensionError`. -/
inductive ExtensionError
  | notFound (message : String)
  | alreadyInstalled (message : String)
  | notInstalled (message : String)
  | authFailed (message : String)
  | activationFailed (message : String)
  | installFailed (message : String)
  | discoveryFailed (message : String)
  | invalidUrl (message : String)
  | downloadFailed (message : String)
  | config (message : String)
  | fallbackFailed (primary fallback : ExtensionError)
  | other (message : String)

/-! ## The disk -/

/-- The files of the target directory, by their path relative to it. -/
abbrev Files := String → Option (List UInt8)

/-- What keeps an `fs::write` from going through: the file cannot be opened, or it can, is truncated, and no
more than so many bytes go in. -/
inductive WriteFault
  | refused (error : String)
  | cut (room : Nat) (error : String)

namespace WriteFault

/-- The bytes a write leaves in the file, when it opens it. -/
def left : Option WriteFault → List UInt8 → Option (List UInt8)
  | none, data => some data
  | some (refused _), _ => none
  | some (cut room _), data => some (data.take room)

/-- The error of a write of these bytes. -/
def error? : Option WriteFault → List UInt8 → Option String
  | none, _ => none
  | some (refused e), _ => some e
  | some (cut room e), data => if room < data.length then some e else none

/-- A write without an error leaves the whole content. -/
theorem left_of_error?_none {fault : Option WriteFault} {data : List UInt8} (h : error? fault data = none) :
    left fault data = some data := by
  rcases fault with _ | ⟨e⟩ | ⟨room, e⟩
  · rfl
  · cases h
  · have hroom : ¬ room < data.length := by
      intro hlt
      simp [error?, hlt] at h
    simp [left, List.take_of_length_le (Nat.le_of_not_lt hroom)]

end WriteFault

/-- `fs::write`. -/
def write (fault : Option WriteFault) (path : String) (data : List UInt8) (files : Files) :
    Files × Except String Unit :=
  (match WriteFault.left fault data with
    | none => files
    | some content => Function.update files path (some content),
   match WriteFault.error? fault data with
    | none => .ok ()
    | some e => .error e)

/-! ## The archive -/

/-- `MAX_ENTRY_SIZE`. -/
def maxEntrySize : Nat := 100 * 1024 * 1024

/-- An entry of a tar archive: its header, and what reading it gives before the end or an error. -/
structure Entry where
  size : Nat
  path : Except String (List UInt8)
  content : List UInt8
  readError : Option String

/-- Cut a byte path at every slash. -/
def piecesOf : List UInt8 → List UInt8 → List (List UInt8)
  | piece, [] => [piece]
  | piece, b :: bs => if b = 47 then piece :: piecesOf [] bs else piecesOf (piece ++ [b]) bs

/-- `Path::file_name`: the last component, unless it is `..`. -/
def fileName (path : List UInt8) : Option (List UInt8) :=
  match ((piecesOf [] path).filter fun piece => piece ≠ [] ∧ piece ≠ [46]).getLast? with
  | none => none
  | some last => if last = [46, 46] then none else some last

namespace Entry

/-- `entry_path.file_name().and_then(|n| n.to_str()).unwrap_or("")`. -/
def filename (path : List UInt8) : String := ((fileName path).bind fromUtf8).getD ""

/-- `entry.take(MAX_ENTRY_SIZE).read_to_end(..)`. An error after the limit is never met. -/
def readToEnd (entry : Entry) : Except String (List UInt8) :=
  if maxEntrySize ≤ entry.content.length then .ok (entry.content.take maxEntrySize)
  else
    match entry.readError with
    | some e => .error e
    | none => .ok entry.content

end Entry

/-- `{name}.wasm`. -/
def wasmFile (name : String) : String := name ++ ".wasm"

/-- `{name}.capabilities.json`. -/
def capsFile (name : String) : String := name ++ ".capabilities.json"

/-- An entry of the archive beside what the disk does with a file written for it. -/
abbrev Step := Except String Entry × Option WriteFault

/-- One pass of the loop of `extract_wasm_tar_gz`; `true` where it found the module. -/
def extractEntry (name : String) (step : Step) (files : Files) : Files × Except ExtensionError Bool :=
  match step.1 with
  | .error e => (files, .error (.installFailed ("Bad tar.gz entry: " ++ e)))
  | .ok entry =>
    if maxEntrySize < entry.size then
      (files, .error (.installFailed ("Archive entry too large (" ++ toString entry.size ++ " bytes, max "
        ++ toString maxEntrySize ++ " bytes)")))
    else
      match entry.path with
      | .error e => (files, .error (.installFailed ("Invalid path in tar.gz: " ++ e)))
      | .ok path =>
        if Entry.filename path = wasmFile name then
          match entry.readToEnd with
          | .error e => (files, .error (.installFailed e))
          | .ok data =>
            match write step.2 (wasmFile name) data files with
            | (files, .error e) => (files, .error (.installFailed e))
            | (files, .ok _) => (files, .ok true)
        else if Entry.filename path = capsFile name then
          match entry.readToEnd with
          | .error e => (files, .error (.installFailed e))
          | .ok data =>
            match write step.2 (capsFile name) data files with
            | (files, .error e) => (files, .error (.installFailed e))
            | (files, .ok _) => (files, .ok false)
        else (files, .ok false)

/-- The loop of `extract_wasm_tar_gz`. The files written before a failing entry stay. -/
def extractEntries (name : String) : List Step → Bool → Files → Files × Except ExtensionError Bool
  | [], foundWasm, files => (files, .ok foundWasm)
  | step :: rest, foundWasm, files =>
    match extractEntry name step files with
    | (files, .error e) => (files, .error e)
    | (files, .ok found) => extractEntries name rest (foundWasm || found) files

/-! ## The download -/

/-- A `reqwest::Response`. -/
structure Response where
  status : Nat
  statusText : String
  contentLength : Option Nat
  body : Except String (List UInt8)

/-- `StatusCode::is_success`. -/
def Response.isSuccess (response : Response) : Bool := 200 ≤ response.status && response.status < 300

/-- The answers of one install: building the client, the two requests, creating the directory, the gzip and
tar readers, and the disk, write by write (for an archive, entry by entry). -/
structure Download where
  client : Except String Unit
  response : Except String Response
  createDirAll : Except String Unit
  untar : List UInt8 → Except String (List (Except String Entry))
  capsResponse : Except String Response
  disk : Nat → Option WriteFault

variable (env : Download)

/-- The entries of an archive, each with the write it may come to. -/
def Download.steps (entries : List (Except String Entry)) : List Step :=
  entries.zipIdx.map fun e => (e.1, env.disk e.2)

/-- `ExtensionManager::extract_wasm_tar_gz`. -/
def extractWasmTarGz (name : String) (bytes : List UInt8) (files : Files) :
    Files × Except ExtensionError Unit :=
  match env.untar bytes with
  | .error e => (files, .error (.installFailed ("Bad tar.gz archive: " ++ e)))
  | .ok entries =>
    match extractEntries name (env.steps entries) false files with
    | (files, .error e) => (files, .error e)
    | (files, .ok foundWasm) =>
      if foundWasm then (files, .ok ())
      else (files, .error (.installFailed ("tar.gz archive does not contain '" ++ wasmFile name ++ "'")))

/-- `MAX_DOWNLOAD_SIZE`. -/
def maxDownloadSize : Nat := 50 * 1024 * 1024

/-- `MAX_CAPS_SIZE`. -/
def maxCapsSize : Nat := 1024 * 1024

/-- The text of both size checks. -/
def tooLarge (size : Nat) : ExtensionError :=
  .installFailed ("Download too large (" ++ toString size ++ " bytes, max " ++ toString maxDownloadSize
    ++ " bytes)")

/-- The first part of `download_and_install_wasm`: the bytes it goes on with, once the directory is there. -/
def fetch (url : String) : Except ExtensionError (List UInt8) :=
  if startsWith url "https://" then
    match env.client with
    | .error e => .error (.downloadFailed e)
    | .ok _ =>
      match env.response with
      | .error e => .error (.downloadFailed e)
      | .ok response =>
        if response.isSuccess then
          match response.contentLength.filter fun len => maxDownloadSize < len with
          | some len => .error (tooLarge len)
          | none =>
            match response.body with
            | .error e => .error (.downloadFailed e)
            | .ok bytes =>
              if maxDownloadSize < bytes.length then .error (tooLarge bytes.length)
              else
                match env.createDirAll with
                | .error e => .error (.installFailed e)
                | .ok _ => .ok bytes
        else .error (.downloadFailed ("HTTP " ++ response.statusText ++ " from " ++ url))
  else .error (.installFailed "Only HTTPS URLs are allowed for extension downloads")

/-- `bytes.len() >= 2 && bytes[0] == 0x1f && bytes[1] == 0x8b`. -/
def isGzip (bytes : List UInt8) : Bool := bytes.take 2 == [0x1f, 0x8b]

/-- The bytes start with `\0asm`. -/
def isModule (bytes : List UInt8) : Bool := bytes.take 4 == [0x00, 0x61, 0x73, 0x6d]

/-- The separate capabilities file, when it arrives whole and is not too large. -/
def fetchCapabilities : Option String → Option (List UInt8)
  | none => none
  | some _ =>
    match env.capsResponse with
    | .error _ => none
    | .ok response =>
      if response.isSuccess then
        match response.body with
        | .error _ => none
        | .ok capsBytes => if capsBytes.length ≤ maxCapsSize then some capsBytes else none
      else none

/-- The branch of `download_and_install_wasm` for a bare module. Failing to get or to write the capabilities
only logs a warning. -/
def installBare (name : String) (capabilitiesUrl : Option String) (bytes : List UInt8)
    (files : Files) : Files × Except ExtensionError Unit :=
  if isModule bytes then
    match write (env.disk 0) (wasmFile name) bytes files with
    | (files, .error e) => (files, .error (.installFailed e))
    | (files, .ok _) =>
      match fetchCapabilities env capabilitiesUrl with
      | none => (files, .ok ())
      | some capsBytes => ((write (env.disk 1) (capsFile name) capsBytes files).1, .ok ())
  else (files, .error (.installFailed "Downloaded file is not a valid WASM binary (bad magic number)"))

/-- `ExtensionManager::download_and_install_wasm`. -/
def downloadAndInstallWasm (name url : String) (capabilitiesUrl : Option String)
    (files : Files) : Files × Except ExtensionError Unit :=
  match fetch env url with
  | .error e => (files, .error e)
  | .ok bytes =>
    if isGzip bytes then extractWasmTarGz env name bytes files
    else installBare env name capabilitiesUrl bytes files

/-- The two files `activate_wasm_tool` hands the loader: the module, and the capabilities where such a file
exists. -/
def filesToLoad (name : String) (files : Files) : Option (List UInt8 × Option (List UInt8)) :=
  (files (wasmFile name)).map fun wasm => (wasm, files (capsFile name))

end Freeclawdia.Extensions
