import Xdccget.DccSessions

set_option autoImplicit false

/-!
# The download callbacks of `xdccget.c`
-/
namespace Xdccget.Downloads
open CText ClientState DccSessions

/-- `isValidRequestFromNick`; `none` is the fault of `strcasecmp` on a null nick. -/
def isValidRequestFromNick (cfg : XdccGetConfig) (botNick : Option Bytes) : Option Bool :=
  match cfg.dccDownloadArray with
  | none => some false
  | some dccDownloads =>
    if cfg.acceptAllNicks then some true
    else
      match botNick with
      | none => if dccDownloads = [] then some false else none
      | some nick => some (dccDownloads.any fun d => strcasecmpEq d.botNick nick)

/-- `fwrite`: in append mode at the end of the file, else at the position of the stream. -/
def fwriteContent (fd : FileIo) (content data : Bytes) : Bytes :=
  if fd.append then content ++ data
  else
    content.take fd.position ++ List.replicate (fd.position - content.length) nul ++ data ++
      content.drop (fd.position + data.length)

/-- `Write(context->fd, data, length)` -/
def writeFile (context : ℕ) (data : Bytes) : ClientM Unit := do
  match (← get).downloadContext[context]? with
  | none => throw .nullContext
  | some c =>
    match c.fd with
    | none =>
      record (.writeClosed context)
      throw .nullFile
    | some fd =>
      modify fun s =>
        { s with files := fun path =>
            if path = fd.fileName then some (fwriteContent fd ((s.files path).getD []) data)
            else s.files path }
      modifyContext context fun c =>
        { c with fd := some { fd with position := fd.position + data.length } }
      record (.write context data)

/-- `Seek(context->fd, offset, SEEK_SET)`. To the system the offset is a signed number, and it may
    refuse others than the negative ones. -/
def seekFile (env : Env) (context : ℕ) (offset : ℕ) : ClientM Unit := do
  match (← get).downloadContext[context]? with
  | none => throw .nullContext
  | some c =>
    match c.fd with
    | none => throw .nullFile
    | some fd =>
      if env.fseek ∧ offset < 2 ^ 63 then
        modifyContext context fun c => { c with fd := some { fd with position := offset } }
      else exitPgm

/-- `Open`: mode `"w"` empties the file. -/
def openFile (env : Env) (context : ℕ) (path : Bytes) (append : Bool) : ClientM Unit := do
  if !env.fopen then
    exitPgm
  if !append then
    modify fun s => { s with files := fun p => if p = path then some [] else s.files p }
  modifyContext context fun c =>
    { c with fd := some { fileName := path, append := append, position := 0 } }

def saveCurrentSpeed (c : DccCurrentSpeed) (curSpeed : ℕ) : DccCurrentSpeed :=
  let speedIndex := (c.speedIndex + 1) % numAverageSpeedValues
  { curSpeed := c.curSpeed.set c.speedIndex curSpeed
    speedIndex := speedIndex
    isSpeedArrayFilled := c.isSpeedArrayFilled || speedIndex = 0 }

def getAverageSpeed (c : DccCurrentSpeed) (curSpeed : ℕ) : ℕ :=
  if c.isSpeedArrayFilled then
    match c.curSpeed with
    | [] => 0
    | v :: vs => vs.foldl (fun averageSpeed v => u64 (averageSpeed + v) / 2) v
  else curSpeed

/-- What `outputProgress` does to the record; the rest of it prints. -/
def outputProgress (p : DccDownloadProgress) : DccDownloadProgress :=
  let curSpeed := u64 (p.sizeRcvd + 2 ^ 64 - p.sizeNow)
  let q := { p with sizeLast := p.sizeNow, sizeNow := p.sizeRcvd }
  if 0 < p.sizeRcvd then
    let speeds := saveCurrentSpeed p.curSpeed curSpeed
    { q with curSpeed := speeds, averageSpeed := getAverageSpeed speeds curSpeed }
  else q

/-- The branch of `callback_dcc_recv_file` for the last byte. -/
def downloadCompleted (context : ℕ) : ClientM Unit := do
  enableAlarm false
  modifyProgress context outputProgress
  modify fun s => { s with lastDownload := s.curDownload }
  modifyContext context fun c => { c with fd := none }
  modify fun s => { s with finishedDownloads := s.finishedDownloads + 1 }
  record (.finish context)
  let s ← get
  if !s.cfg.verifyChecksum then
    if s.finishedDownloads = s.numActiveDownloads then
      discard ircCmdQuit
  else if s.cfg.numDownloads = 1 then
    match ((s.cfg.dccDownloadArray.getD [])[0]?).bind (·.md5) with
    | none => return
    | some md5 =>
      let path := (s.lastDownload.bind (s.downloadContext[·]?)).map (·.progress.completePath)
      record (.startChecksum md5 path)

def callbackDccRecvFile (status : ℕ) (ctx : Option ℕ) (data : Option Bytes) (length : ℕ) :
    ClientM Unit := do
  match data, ctx with
  | none, _ => return
  | some _, none => return
  | some data, some context =>
    if length = 0 then
      return
    if status ≠ 0 then
      return
    modifyProgress context fun p => { p with sizeRcvd := u64 (p.sizeRcvd + length) }
    writeFile context data
    match (← get).downloadContext[context]? with
    | none => throw .nullContext
    | some c =>
      if c.progress.sizeRcvd = c.progress.completeFileSize then
        downloadCompleted context

def seekToResume (env : Env) (context : ℕ) (length : ℕ) : ClientM Unit := do
  seekFile env context length
  modifyProgress context fun p => { p with sizeRcvd := length, sizeNow := length, sizeLast := length }

/-- `if (ret != 0)` the error is printed and the process exits. -/
def exitOnFailure (call : ClientM ℕ) : ClientM Unit := do
  let ret ← call
  if ret ≠ 0 then
    exitPgm

def callbackDccResumeFileReverse (env : Env) (dccid : ℕ) (ctx : Option ℕ) (length : ℕ)
    (nick : Option Bytes) (filename : Bytes) (token : ℕ) : ClientM Unit := do
  match ctx with
  | none => throw .nullContext
  | some context =>
    seekToResume env context length
    match (← get).downloadContext[context]? with
    | none => throw .nullContext
    | some c =>
      exitOnFailure (ircDccAcceptReverse env dccid ctx .callbackDccRecvFile nick filename
        c.progress.completeFileSize token)

def callbackDccResumeFile (env : Env) (dccid : ℕ) (ctx : Option ℕ) (length : ℕ) :
    ClientM Unit := do
  match ctx with
  | none => throw .nullContext
  | some context =>
    seekToResume env context length
    exitOnFailure (ircDccAccept env dccid ctx .callbackDccRecvFile)

def slash : UInt8 := 0x2F
def backslash : UInt8 := 0x5C

def getAbsolutePath (cfg : XdccGetConfig) : Bytes :=
  if cfg.targetDir.getLast? = some slash then cfg.targetDir else cfg.targetDir ++ [slash]

def getCompletePath (cfg : XdccGetConfig) (filename : Bytes) : Bytes :=
  getAbsolutePath cfg ++ filename

def containsIllegalChars (filename : Bytes) : Bool :=
  filename.any fun c => c = slash || c = backslash

def newDccProgress (env : Env) (completePath : Bytes) (complFileSize : ℕ) : DccDownloadProgress :=
  { completeFileSize := complFileSize
    sizeRcvd := 0
    sizeNow := 0
    sizeLast := 0
    averageSpeed := env.junk
    completePath := completePath
    curSpeed :=
      { curSpeed := List.replicate numAverageSpeedValues 0
        speedIndex := 0
        isSpeedArrayFilled := false } }

/-- `prepareRecvFileRequest`; the directory it may make is not modelled. The new context is kept
    behind the older ones, its index is returned. -/
def prepareRecvFileRequest (env : Env) (filename : Bytes) (size : ℕ) : ClientM ℕ := do
  if containsIllegalChars filename then
    exitPgm
  let s ← get
  let context := s.downloadContext.length
  let progress := newDccProgress env (getCompletePath s.cfg filename) size
  record (.storeContext s.numActiveDownloads)
  modify fun s =>
    { s with
      downloadContext := s.downloadContext ++ [{ progress := progress, fd := none }]
      curDownload := some context
      numActiveDownloads := s.numActiveDownloads + 1 }
  return context

/-- The two request callbacks differ in how they accept and resume the session. -/
def recvFileWith (env : Env) (filename : Bytes) (size : ℕ) (accept : ℕ → ClientM ℕ)
    (resume : ℕ → ℕ → ClientM ℕ) : ClientM Unit := do
  let context ← prepareRecvFileRequest env filename size
  let s ← get
  let completePath := getCompletePath s.cfg filename
  match s.files completePath with
  | some content =>
    openFile env context completePath true
    let fileSize := content.length
    if size = fileSize then
      exitPgm
    if fileSize = 0 then
      exitOnFailure (accept context)
    else
      exitOnFailure (resume context fileSize)
  | none =>
    openFile env context completePath false
    exitOnFailure (accept context)

def recvFileRequestReverse (env : Env) (nick : Option Bytes) (filename : Bytes)
    (size dccid token : ℕ) : ClientM Unit :=
  recvFileWith env filename size
    (fun context =>
      ircDccAcceptReverse env dccid (some context) .callbackDccRecvFile nick filename size token)
    (fun context fileSize =>
      ircDccResumeReverse dccid (some context) .callbackDccResumeFileReverse nick fileSize token)

def recvFileRequest (env : Env) (nick : Option Bytes) (filename : Bytes) (size dccid : ℕ) :
    ClientM Unit :=
  recvFileWith env filename size
    (fun context => ircDccAccept env dccid (some context) .callbackDccRecvFile)
    (fun context fileSize => ircDccResume dccid (some context) .callbackDccResumeFile nick fileSize)

/-- `output_all_progesses` for the downloads there are. -/
def outputAllProgesses : ClientM Unit :=
  modify fun s =>
    { s with downloadContext :=
        s.downloadContext.map fun c => { c with progress := outputProgress c.progress } }

end Xdccget.Downloads
