import Licq.Buffer.Fields
import Licq.Data.File
import Licq.Data.Steps
import Licq.Icq.DcSocket
import Licq.Text.Bytes

/-!
# Icq/FileTransfer — files over a direct connection

`FileTransferManager` is the sender of files and the receiver of them.  The receiver says from which
position on it needs a file, the sender sends the rest in packets of 2048 bytes.

What a manager receives comes from `DcSocket::RecvPacket`, which takes the first two bytes for the
size of a packet, and every reader skips these two.  No packet is sent with them: the `CPFile_…`
constructors do not pack them, and neither does `SendBuffer`.  The **main result** `not_delivers` is
what comes of it: no file arrives, in any run.
-/

open Wire Text

namespace Licq.FileTransfer

open List Buffer

/-! ## Disks -/

/-- What is at a path. -/
inductive Entry
  | file (content : List UInt8)
  | directory (size : ℕ)
  deriving DecidableEq

/-- What is on a disk, and where a file can be opened for writing. -/
structure Disk where
  entries : List UInt8 → Option Entry
  writable : List UInt8 → Bool

/-- An open file, and where the next byte is read or written. -/
structure FileDesc where
  path : List UInt8
  pos : ℕ
  append : Bool
  deriving DecidableEq

namespace Disk

/-- `stat`: the size of what is at a path. -/
def stat (d : Disk) (pathName : List UInt8) : Option ℕ :=
  (d.entries (cStr pathName)).map fun
    | .file content => content.length
    | .directory size => size

/-- `open` with `O_RDONLY` -/
def openRead (d : Disk) (pathName : List UInt8) : Option FileDesc :=
  (d.entries (cStr pathName)).map fun _ => ⟨cStr pathName, 0, false⟩

/-- The disk with another content of a file. -/
def put (d : Disk) (path content : List UInt8) : Disk :=
  { d with entries := Function.update d.entries path (some (.file content)) }

/-- `open` with `O_WRONLY | O_CREAT`, and `O_APPEND` where it is asked for. -/
def openWrite (d : Disk) (pathName : List UInt8) (append : Bool) : Option (Disk × FileDesc) :=
  if d.writable (cStr pathName) then
    match d.entries (cStr pathName) with
    | some (.directory _) => none
    | some (.file _) => some (d, ⟨cStr pathName, 0, append⟩)
    | none => some (d.put (cStr pathName) [], ⟨cStr pathName, 0, append⟩)
  else none

/-- `read` of `n` bytes; none where it returns another number.  A negative number is a size that no
buffer has. -/
def read (d : Disk) (fd : FileDesc) (n : ℤ) : Option (List UInt8 × FileDesc) :=
  match d.entries fd.path with
  | some (.file content) =>
    let bytes := (content.drop fd.pos).take n.toNat
    if bytes.length = n then some (bytes, { fd with pos := fd.pos + bytes.length }) else none
  | _ => none

/-- `write`, of as many bytes as there is room for. -/
def write (d : Disk) (fd : FileDesc) (bytes : List UInt8) (room : Option ℕ) :
    ℕ × Disk × FileDesc :=
  let bytes := bytes.take (room.getD bytes.length)
  match d.entries fd.path with
  | some (.file content) =>
    let pos := if fd.append then content.length else fd.pos
    (bytes.length, d.put fd.path (File.writeAt content pos bytes),
      { fd with pos := pos + bytes.length })
  | _ => (0, d, fd)

end Disk

/-! ## Packets -/

/-- The bytes of a packet of `CPacketFile`.  Its size is an `unsigned short`; none of the packers
that are used here asserts anything. -/
def packetBytes (nSize : ℕ) (fields : List Buffer.Field) : List UInt8 :=
  (((Buffer.ofSize (nSize % 2 ^ 16)).packAll fields).map Buffer.data).getD []

/-- `CPFile_InitClient` -/
def cpFileInitClient (localName : List UInt8) (nNumFiles nTotalSize : ℕ) : List UInt8 :=
  packetBytes (20 + localName.length)
    [.char 0x00, .long 0, .long nNumFiles, .long nTotalSize, .long 0x64,
      .shortNullStringLE (cStr localName)]

/-- `CPFile_InitServer` -/
def cpFileInitServer (localName : List UInt8) : List UInt8 :=
  packetBytes (8 + localName.length)
    [.char 0x01, .long 0x64, .shortNullStringLE (cStr localName)]

/-- What stands behind the last slash. -/
def baseName (fileName : List UInt8) : List UInt8 :=
  (fileName.reverse.takeWhile (· ≠ 0x2F)).reverse

/-- `CPFile_Info`: the name without its path, and the size of the file of that name. -/
structure CPFileInfo where
  myFileName : List UInt8
  nFileSize : ℕ
  bytes : List UInt8

/-- The constructor of `CPFile_Info`; none where the packet is not valid. -/
def cpFileInfo (disk : Disk) (fileName : List UInt8) : Option CPFileInfo :=
  let myFileName := baseName fileName
  (disk.stat myFileName).map fun nFileSize =>
    ⟨myFileName, nFileSize, packetBytes (myFileName.length + 21)
      [.uint16LE 0x02, .shortNullStringLE (cStr myFileName), .shortNullStringLE [],
        .long nFileSize, .long 0x00, .long 0x64]⟩

/-- `CPFile_Start` -/
def cpFileStart (nFilePos nFile : ℕ) : List UInt8 :=
  packetBytes 17 [.char 0x03, .long nFilePos, .long 0x00, .long 0x64, .long nFile]

/-- `CPFile_SetSpeed` -/
def cpFileSetSpeed (nSpeed : ℕ) : List UInt8 := packetBytes 5 [.char 0x05, .long nSpeed]

/-! ## The manager -/

/-- The states of a connection after its handshake. -/
inductive State
  | disconnected
  | waitForClientInit
  | waitForFileInfo
  | confirmingFile
  | receivingFile
  | waitForServerInit
  | waitForStart
  | sendingFile
  deriving DecidableEq

/-- `m_nResult` -/
inductive Result
  | doneBatch
  | errorFile
  | errorHandshake
  | errorClosed
  deriving DecidableEq

/-- `IcqFileTransferEvent` -/
inductive Event
  | startBatch
  | startFile (fileName : List UInt8)
  | update
  | doneFile (fileName : List UInt8)
  | confirmFile (fileName : List UInt8)
  | result (nResult : Option Result)
  deriving DecidableEq

/-- `FileTransferManager`, with the disk that it works on and the bytes that it has sent and the
peer has not got. -/
structure FileTransferManager where
  myDirectory : List UInt8
  myLocalName : List UInt8
  myRemoteName : List UInt8
  /-- The path names from `myPathNameIter` on. -/
  myPathNames : List (List UInt8)
  myFileName : List UInt8
  myPathName : List UInt8
  nCurrentFile : UInt16
  nBatchFiles : UInt16
  nFileSize : ℕ
  nBatchSize : ℕ
  nFilePos : ℕ
  nBatchPos : ℕ
  nBytesTransfered : ℕ
  nBatchBytesTransfered : ℕ
  nSpeed : UInt16
  nUpdatesEnabled : ℕ
  lastUpdate : ℕ
  nFileDesc : Option FileDesc
  nState : State
  nResult : Option Result
  ftEvents : List Event
  mySock : DcSocket
  disk : Disk
  sent : List UInt8

/-- What a call finds outside: the time, how many packets it can send before the connection breaks,
and how many bytes the disk has room for. -/
structure Outside where
  time : ℕ
  sends : ℕ
  room : Option ℕ

/-- A number as an `int`. -/
def toInt (n : ℤ) : ℤ := n.bmod (2 ^ 32)

/-- The command of a packet, behind the two bytes of its size, and what follows it. -/
def command (b : Buffer) : Int8 × Buffer := b.unpackUInt16LE.2.unpackInt8

namespace FileTransferManager

/-- A call that returns false, with `m_nResult` set. -/
def fail (m : FileTransferManager) (nResult : Result) : FileTransferManager × Bool :=
  ({ m with nResult := some nResult }, false)

/-- `PushFileTransferEvent` -/
def push (m : FileTransferManager) (e : Event) : FileTransferManager :=
  { m with ftEvents := m.ftEvents ++ [e] }

/-- `SendBuffer`, where it succeeds: the bytes of the buffer and no others. -/
def sendBuffer (m : FileTransferManager) (bytes : List UInt8) : FileTransferManager :=
  { m with sent := m.sent ++ bytes }

/-- `nBytesLeft` -/
def nBytesLeft (m : FileTransferManager) : ℤ := toInt ((m.nFileSize : ℤ) - (m.nFilePos : ℤ))

/-- The notification about the progress, where it is time for one. -/
def updateEvent (m : FileTransferManager) (o : Outside) : FileTransferManager :=
  if m.nUpdatesEnabled ≠ 0 ∧ m.lastUpdate + m.nUpdatesEnabled ≤ o.time then
    { m.push .update with lastUpdate := o.time }
  else m

/-- The first packet of a file. -/
def startFile (m : FileTransferManager) (o : Outside) : FileTransferManager :=
  if m.nBytesTransfered = 0 then
    { m.push (.startFile m.myPathName) with
      nBatchPos := m.nBatchPos + m.nFilePos
      lastUpdate := o.time }
  else m

/-- The counters, after some bytes more. -/
def count (m : FileTransferManager) (nBytes : ℕ) : FileTransferManager :=
  { m with
    nFilePos := m.nFilePos + nBytes
    nBytesTransfered := m.nBytesTransfered + nBytes
    nBatchPos := m.nBatchPos + nBytes
    nBatchBytesTransfered := m.nBatchBytesTransfered + nBytes }

/-- The file is closed and its end made known. -/
def doneFile (m : FileTransferManager) : FileTransferManager :=
  { m.push (.doneFile m.myPathName) with nFileDesc := none }

/-! ### Receiving -/

/-- What the receiver keeps of the first packet. -/
def readClientInit (b : Buffer) (m : FileTransferManager) : FileTransferManager :=
  let skipped := b.unpackUInt32LE
  let nBatchFiles := skipped.2.unpackUInt32LE
  let nBatchSize := nBatchFiles.2.unpackUInt32LE
  let nSpeed := nBatchSize.2.unpackUInt32LE
  let myRemoteName := nSpeed.2.unpackShortStringLE
  { m.push .startBatch with
    nBatchFiles := nBatchFiles.1.toUInt16
    nBatchSize := nBatchSize.1.toNat
    nSpeed := nSpeed.1.toUInt16
    myRemoteName := myRemoteName.1
    nBatchBytesTransfered := 0
    nBatchPos := 0 }

/-- `FT_STATE_WAITxFORxCLIENTxINIT` -/
def onClientInit (o : Outside) (b : Buffer) (m : FileTransferManager) :
    FileTransferManager × Bool :=
  let nCmd := command b
  if nCmd.1 = 0x05 then (m, true)
  else if nCmd.1 ≠ 0x00 then m.fail .errorHandshake
  else
    let m := m.readClientInit nCmd.2
    if o.sends = 0 then m.fail .errorClosed
    else
      let m := m.sendBuffer (cpFileSetSpeed 100)
      if o.sends = 1 then m.fail .errorClosed
      else ({ m.sendBuffer (cpFileInitServer m.myLocalName) with nState := .waitForFileInfo }, true)

/-- `FT_STATE_WAITxFORxFILExINFO` -/
def onFileInfo (b : Buffer) (m : FileTransferManager) : FileTransferManager × Bool :=
  let nCmd := command b
  if nCmd.1 = 0x05 then (m, true)
  else if nCmd.1 = 0x06 ∧ b.getDataSize = 3 then (m, true)
  else if nCmd.1 ≠ 0x02 then m.fail .errorHandshake
  else
    let myFileName := nCmd.2.unpackInt8.2.unpackShortStringLE
    let skipped := myFileName.2.unpackUInt16LE.2.unpackInt8
    let nFileSize := skipped.2.unpackUInt32LE
    let nSpeed := nFileSize.2.unpackUInt32LE.2.unpackUInt32LE
    ({ m.push (.confirmFile m.myPathName) with
      myFileName := baseName myFileName.1
      nFileSize := nFileSize.1.toNat
      nSpeed := nSpeed.1.toUInt16
      nBytesTransfered := 0
      nCurrentFile := m.nCurrentFile + 1
      nState := .confirmingFile }, true)

/-- `FT_STATE_RECEIVINGxFILE` -/
def onFileData (o : Outside) (b : Buffer) (m : FileTransferManager) : FileTransferManager × Bool :=
  let m := m.startFile o
  let nCmd := command b
  if nCmd.1 ≠ 0x06 then (m, true)
  else
    match m.nFileDesc with
    | none => m.fail .errorFile
    | some fd =>
      -- a packet without data has a size below zero, which no write takes
      if b.getDataSize < 3 then m.fail .errorFile
      else
        let bytes := nCmd.2.rest.take (b.getDataSize - 3)
        let (nBytesWritten, disk, fd) := m.disk.write fd bytes o.room
        let m := { m with disk, nFileDesc := some fd }
        if nBytesWritten ≠ b.getDataSize - 3 then m.fail .errorFile
        else
          let m := (m.count nBytesWritten).updateEvent o
          if 0 < m.nBytesLeft then (m, true)
          else ({ m.doneFile with nState := .waitForFileInfo }, true)

/-- `startReceivingFile`, which the plugin calls. -/
def startReceivingFile (o : Outside) (fileName : List UInt8) (m : FileTransferManager) :
    FileTransferManager × Bool :=
  if m.nState ≠ .confirmingFile then (m, false)
  else
    let myFileName := if fileName = [] then fileName else m.myFileName
    let myPathName := m.myDirectory ++ 0x2F :: myFileName
    let m := { m with myFileName, myPathName, nFileDesc := none }
    match m.disk.stat myPathName with
    | some size =>
      -- `snprintf` into twenty bytes
      let myPathName := if m.nFileSize ≤ size then
          myPathName ++ (0x2E :: decimalBytes o.time).take 19
        else myPathName
      let m := { m with myPathName, nFilePos := size }
      match m.disk.openWrite myPathName true with
      | none => m.fail .errorFile
      | some (disk, fd) => start { m with disk, nFileDesc := some fd }
    | none =>
      let m := { m with nFilePos := 0 }
      match m.disk.openWrite myPathName false with
      | none => m.fail .errorFile
      | some (disk, fd) => start { m with disk, nFileDesc := some fd }
where
  /-- The response, and the state that follows. -/
  start (m : FileTransferManager) : FileTransferManager × Bool :=
    if o.sends = 0 then m.fail .errorClosed
    else ({ m.sendBuffer (cpFileStart m.nFilePos m.nCurrentFile.toNat) with
      nState := .receivingFile }, true)

/-! ### Sending -/

/-- The packet about a file, and the state that waits for its start. -/
def sendFileInfo (o : Outside) (pathName : List UInt8) (m : FileTransferManager) :
    FileTransferManager × Bool :=
  match cpFileInfo m.disk pathName with
  | none => m.fail .errorFile
  | some p =>
    if o.sends = 0 then m.fail .errorClosed
    else ({ m.sendBuffer p.bytes with
      nFileSize := p.nFileSize
      myFileName := p.myFileName
      nState := .waitForStart }, true)

/-- `FT_STATE_WAITxFORxSERVERxINIT` -/
def onServerInit (o : Outside) (b : Buffer) (m : FileTransferManager) :
    FileTransferManager × Bool :=
  let nCmd := command b
  if nCmd.1 = 0x05 then (m, true)
  else if nCmd.1 ≠ 0x01 then m.fail .errorHandshake
  else
    let nSpeed := nCmd.2.unpackUInt32LE
    let myRemoteName := nSpeed.2.unpackShortStringLE
    let m := { m with nSpeed := nSpeed.1.toUInt16, myRemoteName := myRemoteName.1 }
    match m.myPathNames with
    | [] => m.fail .errorFile
    | pathName :: _ =>
      let ret := m.sendFileInfo o pathName
      if ret.2 then
        ({ ret.1.push .startBatch with nBatchBytesTransfered := 0, nBatchPos := 0 }, true)
      else ret

/-- `FT_STATE_WAITxFORxSTART` -/
def onStart (b : Buffer) (m : FileTransferManager) : FileTransferManager × Bool :=
  let nCmd := command b
  if nCmd.1 = 0x05 then (m, true)
  else if nCmd.1 ≠ 0x03 then m.fail .errorClosed
  else
    let m := { m with
      nBytesTransfered := 0
      nCurrentFile := m.nCurrentFile + 1
      nFilePos := nCmd.2.unpackUInt32LE.1.toNat }
    match m.myPathNames.head?.bind m.disk.openRead with
    | none => { m with nFileDesc := none }.fail .errorFile
    | some fd =>
      ({ m with nFileDesc := some { fd with pos := m.nFilePos }, nState := .sendingFile }, true)

/-- `SendFilePacket` -/
def sendFilePacket (o : Outside) (m : FileTransferManager) : FileTransferManager × Bool :=
  let m := m.startFile o
  let nBytesToSend := min m.nBytesLeft 2048
  match m.nFileDesc.bind (m.disk.read · nBytesToSend) with
  | none => m.fail .errorFile
  | some (bytes, fd) =>
    let m := { m with nFileDesc := some fd }
    if o.sends = 0 then m.fail .errorClosed
    else
      let m := ((m.sendBuffer (0x06 :: bytes)).count bytes.length).updateEvent o
      if 0 < m.nBytesLeft then (m, true)
      else
        let m := { m.doneFile with myPathNames := m.myPathNames.tail }
        match m.myPathNames with
        | [] => m.fail .doneBatch
        | pathName :: _ =>
          let ret := m.sendFileInfo { o with sends := o.sends - 1 } pathName
          if ret.2 then ({ ret.1 with myPathName := pathName }, true) else ret

/-! ### The connection -/

/-- What is done with a packet, by the state. -/
def onPacket (o : Outside) (b : Buffer) (m : FileTransferManager) : FileTransferManager × Bool :=
  match m.nState with
  | .waitForClientInit => m.onClientInit o b
  | .waitForFileInfo => m.onFileInfo b
  | .receivingFile => m.onFileData o b
  | .waitForServerInit => m.onServerInit o b
  | .waitForStart => m.onStart b
  | .confirmingFile | .sendingFile | .disconnected => (m, true)

/-- `ProcessPacket` -/
def processPacket (r : Arrivals) (o : Outside) (m : FileTransferManager) :
    FileTransferManager × Bool :=
  match m.mySock.recvPacket r with
  | none => m.fail (if m.nState = .waitForFileInfo then .doneBatch else .errorClosed)
  | some sock =>
    let m := { m with mySock := sock }
    if !sock.myRecvBuffer.full then (m, true)
    else
      let ret := m.onPacket o sock.myRecvBuffer
      if ret.2 then ({ ret.1 with mySock := ⟨Buffer.clear, sock.stream⟩ }, true) else ret

/-- `CloseConnection` -/
def closeConnection (m : FileTransferManager) : FileTransferManager :=
  { m with nState := .disconnected, nFileDesc := none }

/-- What the thread does after a call: it closes the connection where the call has returned
false. -/
def after (ret : FileTransferManager × Bool) : FileTransferManager :=
  if ret.2 then ret.1 else ret.1.closeConnection.push (.result ret.1.nResult)

end FileTransferManager

/-! ## Two managers -/

/-- What a transfer starts with.  `sendFiles` takes the files that are there; where none is, it uses
the end of a list. -/
structure Input where
  senderName : List UInt8
  receiverName : List UInt8
  senderUpdates : ℕ
  receiverUpdates : ℕ
  senderDisk : Disk
  receiverDisk : Disk
  directory : List UInt8
  pathNames : List (List UInt8)
  exists_file : ∃ pathName ∈ pathNames, (senderDisk.stat pathName).isSome = true

/-- The sender and the receiver. -/
structure Link where
  sender : FileTransferManager
  receiver : FileTransferManager

/-- One call of a manager: its thread finds that something has arrived or that there is room to
send, or the plugin confirms a file. -/
inductive Act
  | senderReceives (r : Arrivals) (o : Outside)
  | senderSends (o : Outside)
  | receiverReceives (r : Arrivals) (o : Outside)
  | confirm (o : Outside) (fileName : List UInt8)

/-- A manager as it is constructed. -/
def FileTransferManager.new (localName : List UInt8) (nUpdatesEnabled : ℕ) (disk : Disk) :
    FileTransferManager where
  myDirectory := []
  myLocalName := localName
  myRemoteName := []
  myPathNames := []
  myFileName := []
  myPathName := []
  nCurrentFile := 0
  nBatchFiles := 0
  nFileSize := 0
  nBatchSize := 0
  nFilePos := 0
  nBatchPos := 0
  nBytesTransfered := 0
  nBatchBytesTransfered := 0
  nSpeed := 0
  nUpdatesEnabled := nUpdatesEnabled
  lastUpdate := 0
  nFileDesc := none
  nState := .disconnected
  nResult := none
  ftEvents := []
  mySock := ⟨Buffer.clear, []⟩
  disk := disk
  sent := []

/-- The bytes that the peer has sent. -/
def FileTransferManager.arrive (m : FileTransferManager) (bytes : List UInt8) :
    FileTransferManager :=
  { m with mySock := ⟨m.mySock.myRecvBuffer, m.mySock.stream ++ bytes⟩ }

namespace Input

/-- `m_pathNames` of the sender. -/
def files (i : Input) : List (List UInt8) :=
  i.pathNames.filter fun pathName => (i.senderDisk.stat pathName).isSome

/-- The sender after `sendFiles`. -/
def sender (i : Input) : FileTransferManager :=
  { FileTransferManager.new i.senderName i.senderUpdates i.senderDisk with
    myPathNames := i.files
    myPathName := i.files.headD []
    nBatchFiles := UInt16.ofNat i.files.length
    nBatchSize := (i.files.filterMap i.senderDisk.stat).sum }

/-- The packet that the sender sends after the handshake. -/
def clientInit (i : Input) : List UInt8 :=
  cpFileInitClient i.senderName i.sender.nBatchFiles.toNat i.sender.nBatchSize

/-- Both managers after the handshake, with the first packet under way. -/
def start (i : Input) : Link where
  sender := { i.sender with nState := .waitForServerInit }
  receiver := { FileTransferManager.new i.receiverName i.receiverUpdates i.receiverDisk with
    myDirectory := i.directory
    nState := .waitForClientInit
    mySock := ⟨Buffer.clear, i.clientInit⟩ }

end Input

namespace Link

/-- What the managers have sent gets to their peers. -/
def deliver (sender receiver : FileTransferManager) : Link where
  sender := { sender with sent := [] }.arrive receiver.sent
  receiver := { receiver with sent := [] }.arrive sender.sent

/-- A step; none where the manager does not wait for what is to happen. -/
def step (s : Link) : Act → Option Link
  | .senderReceives r o =>
    if s.sender.nState = .disconnected then none
    else some (deliver (.after (s.sender.processPacket r o)) s.receiver)
  | .senderSends o =>
    if s.sender.nState = .sendingFile then
      some (deliver (.after (s.sender.sendFilePacket o)) s.receiver)
    else none
  | .receiverReceives r o =>
    if s.receiver.nState = .disconnected then none
    else some (deliver s.sender (.after (s.receiver.processPacket r o)))
  | .confirm o fileName => some (deliver s.sender (s.receiver.startReceivingFile o fileName).1)

end Link

/-- The files whose end a manager has made known. -/
def FileTransferManager.doneFiles (m : FileTransferManager) : List (List UInt8) :=
  m.ftEvents.filterMap fun
    | .doneFile pathName => some pathName
    | _ => none

/-- All files have arrived: the receiver has as many as are sent, in their order, each with the
content of the file that was sent. -/
def Arrived (i : Input) (s : Link) : Prop :=
  List.Forall₂ (fun pathName donePath =>
    s.receiver.disk.entries (cStr donePath) = i.senderDisk.entries (cStr pathName))
    i.files s.receiver.doneFiles

/-- **The files can get across**: some run, whatever the names that are chosen and the order of the
steps, comes to where all files have arrived. -/
def Delivers (i : Input) : Prop :=
  ∃ (acts : List Act) (s : Link), acts.foldlM Link.step i.start = some s ∧ Arrived i s

/-! ## Packets without their size -/

section Commands

variable {b : Buffer} {s : DcSocket}

theorem command_of_rest_lt (h : b.rest.length < 2) :
    command b = b.unpackInt8 := by
  have hword : b.unpackUInt16LE.2 = b := by
    rw [unpackUInt16LE, unpack_of_rest_lt h]
  rw [command, hword]

theorem unpackInt8_nil (h : b.rest = []) : b.unpackInt8.1 = 0 := by
  have hnone : b.unpack 1 = ([], b) := unpack_of_rest_lt (by rw [h]; exact Nat.one_pos)
  change (UInt8.ofNat (valueLE (b.unpack 1).1)).toInt8 = 0
  rw [hnone]
  rfl

theorem command_of_two_le {c : UInt8} {tail : List UInt8} (h : b.rest.drop 2 = c :: tail) :
    (command b).1 = c.toInt8 := by
  have hlen : 2 ≤ b.rest.length := by
    have hdrop := congrArg List.length h
    rw [length_drop, length_cons] at hdrop
    omega
  have hrest : b.unpackUInt16LE.2.rest = c.toInt8.toUInt8 :: tail := by
    rw [unpackUInt16LE, (unpack_rest hlen).2, h, UInt8.toUInt8_toInt8]
  exact (unpackInt8_rest hrest).1

/-- One byte on its own is the command. -/
theorem command_oneByte {c : UInt8} {rest : List UInt8} (h : s.OneByte (c :: rest)) :
    (command s.myRecvBuffer).1 = c.toInt8 ∧ s.stream = rest := by
  obtain ⟨d, hdata⟩ := length_eq_one_iff.mp h.length
  have hbytes := h.bytes
  rw [hdata] at hbytes
  obtain ⟨rfl, hstream⟩ := List.cons.inj hbytes
  have hrest : s.myRecvBuffer.rest = d.toInt8.toUInt8 :: [] := by
    rw [Buffer.rest, hdata, h.posRead, UInt8.toUInt8_toInt8]
    rfl
  rw [command_of_rest_lt (by rw [hrest]; exact Nat.one_lt_two)]
  exact ⟨(Buffer.unpackInt8_rest hrest).1, hstream⟩

/-- A packet whose third byte is zero, or that has no third byte, has the command zero. -/
theorem command_inBytes {c d : UInt8} {rest : List UInt8} (h : s.InBytes (c :: d :: 0 :: rest))
    (hfull : s.myRecvBuffer.full = true) : (command s.myRecvBuffer).1 = 0 := by
  have hlen := (Buffer.full_iff.mp hfull).2
  have hprefix : s.myRecvBuffer.data <+: c :: d :: 0 :: rest := h.bytes ▸ prefix_append _ _
  obtain hpos | ⟨hpos, hmax⟩ := h.posRead
  · have hrest : s.myRecvBuffer.rest = s.myRecvBuffer.data := by
      rw [Buffer.rest, hpos, drop_zero]
    have hthird : s.myRecvBuffer.rest.drop 2 <+: 0 :: rest := hrest ▸ hprefix.drop 2
    cases htail : s.myRecvBuffer.rest.drop 2 with
    | nil =>
      have hafter : s.myRecvBuffer.unpackUInt16LE.2.rest = [] := by
        rw [Buffer.unpackUInt16LE, (Buffer.unpack_rest (hrest ▸ h.header)).2, htail]
      exact unpackInt8_nil hafter
    | cons e tail =>
      rw [command_of_two_le htail]
      rw [htail] at hthird
      rw [(cons_prefix_cons.mp hthird).1]
      rfl
  · have hle := s.myRecvBuffer.data_le
    have hrest : s.myRecvBuffer.rest = [] := drop_eq_nil_of_le (by omega)
    rw [command_of_rest_lt (by rw [hrest]; exact Nat.two_pos)]
    exact unpackInt8_nil hrest

end Commands

/-- What the sender gets from the receiver: packets without their size, none of which is taken for
the answer that it waits for. -/
inductive NoInit : List UInt8 → Prop
  | nil : NoInit []
  | speed (rest : List UInt8) : NoInit (0x05 :: 0x64 :: 0 :: 0 :: 0 :: rest)
  | speedLeft (rest : List UInt8) : NoInit (0x64 :: 0 :: 0 :: rest)

/-- What the receiver gets from the sender after its first packet: no packet of it is taken for the
file information that it waits for. -/
inductive NoInfo : List UInt8 → Prop
  | nil : NoInfo []
  | nameLeft : NoInfo [1, 0, 0]
  | numbersLeft (rest : List UInt8) : NoInfo (0 :: 0 :: 0 :: rest)

theorem not_received_nil {s : DcSocket} (h : s.Received []) : False := by
  obtain hone | ⟨hin, -⟩ := h
  · have hlen := hone.length
    rw [(append_eq_nil_iff.mp hone.bytes).1] at hlen
    cases hlen
  · have hheader := hin.header
    rw [(append_eq_nil_iff.mp hin.bytes).1] at hheader
    exact absurd hheader (by decide)

/-- A packet is a speed, or the sender does not know it. -/
theorem NoInit.command {bytes : List UInt8} (h : NoInit bytes) {s : DcSocket}
    (hs : s.Received bytes) :
    (command s.myRecvBuffer).1 = 0x05 ∧ NoInit s.stream ∨
      (command s.myRecvBuffer).1 ≠ 0x05 ∧ (command s.myRecvBuffer).1 ≠ 0x01 := by
  cases h with
  | nil => exact (not_received_nil hs).elim
  | speed rest =>
    obtain hone | ⟨hin, hfull⟩ := hs
    · obtain ⟨hcommand, hstream⟩ := command_oneByte hone
      exact .inl ⟨hcommand, hstream ▸ .speedLeft (0 :: rest)⟩
    · rw [command_inBytes hin hfull]
      exact .inr (by decide)
  | speedLeft rest =>
    obtain hone | ⟨hin, hfull⟩ := hs
    · rw [(command_oneByte hone).1]
      exact .inr (by decide)
    · rw [command_inBytes hin hfull]
      exact .inr (by decide)

/-- A packet is none that the receiver knows. -/
theorem NoInfo.command {bytes : List UInt8} (h : NoInfo bytes) {s : DcSocket}
    (hs : s.Received bytes) :
    (command s.myRecvBuffer).1 ≠ 0x05 ∧ (command s.myRecvBuffer).1 ≠ 0x06 ∧
      (command s.myRecvBuffer).1 ≠ 0x02 := by
  cases h with
  | nil => exact (not_received_nil hs).elim
  | nameLeft =>
    obtain hone | ⟨hin, hfull⟩ := hs
    · rw [(command_oneByte hone).1]
      decide
    · rw [command_inBytes hin hfull]
      decide
  | numbersLeft rest =>
    obtain hone | ⟨hin, hfull⟩ := hs
    · rw [(command_oneByte hone).1]
      decide
    · rw [command_inBytes hin hfull]
      decide

/-- How the first packet of the sender begins.  One that has room for less is that of a name whose
length wraps the size around. -/
theorem cpFileInitClient_cases (localName : List UInt8) (nNumFiles nTotalSize : ℕ) :
    cpFileInitClient localName nNumFiles nTotalSize = [] ∨
      cpFileInitClient localName nNumFiles nTotalSize = [0] ∨
      cpFileInitClient localName nNumFiles nTotalSize = [0, 1, 0, 0] ∨
      ∃ rest, cpFileInitClient localName nNumFiles nTotalSize = 0 :: 0 :: 0 :: 0 :: 0 :: rest := by
  obtain ⟨N, hN⟩ : ∃ N, N = (20 + localName.length) % 2 ^ 16 := ⟨_, rfl⟩
  obtain ⟨b, hb⟩ : ∃ b, b = (ofSize N).packRaw [0] := ⟨_, rfl⟩
  obtain ⟨name, hname⟩ : ∃ name, name = cStr localName := ⟨_, rfl⟩
  have hpack : cpFileInitClient localName nNumFiles nTotalSize =
      (((((b.packRaw (bytesLE 4 0)).packRaw (bytesLE 4 (UInt32.ofNat nNumFiles).toNat)).packRaw
        (bytesLE 4 (UInt32.ofNat nTotalSize).toNat)).packRaw (bytesLE 4 0x64)).packRaw
          (bytesLE 2 (name.length + 1) ++ name ++ [0])).data := by
    rw [hb, hN, hname]
    rfl
  have hroom : (ofSize N).remainingDataToWrite = N := rfl
  rw [hpack]
  rcases Nat.lt_or_ge N 5 with hlt | hge
  · have hb : b.data = [] ∧ b.remainingDataToWrite = 0 ∨
        b.data = [0] ∧ b.remainingDataToWrite = N - 1 := by
      rcases Nat.eq_zero_or_pos N with rfl | hpos
      · rw [hb, packRaw_of_lt (by rw [hroom]; exact Nat.one_pos)]
        exact .inl ⟨rfl, rfl⟩
      · have hdata : b.data = [0] := by
          rw [hb, packRaw_data (by rw [hroom]; exact hpos)]
          rfl
        refine .inr ⟨hdata, ?_⟩
        rw [remainingDataToWrite, hdata, hb, packRaw_maxSize]
        rfl
    have hword : ∀ n, b.packRaw (bytesLE 4 n) = b := fun n =>
      packRaw_of_lt (by rw [length_bytesLE]; omega)
    rw [hword, hword, hword, hword]
    have hlen : (bytesLE 2 (name.length + 1) ++ name ++ [0]).length = name.length + 3 := by
      rw [length_append, length_append, length_bytesLE, length_singleton]
      omega
    rcases Nat.lt_or_ge b.remainingDataToWrite (name.length + 3) with hcut | hfits
    · rw [packRaw_of_lt (by rw [hlen]; exact hcut)]
      obtain ⟨hdata, -⟩ | ⟨hdata, -⟩ := hb
      · exact .inl hdata
      · exact .inr (.inl hdata)
    · have hnil : name = [] := length_eq_zero_iff.mp (by omega)
      obtain ⟨hdata, hrem⟩ | ⟨hdata, -⟩ := hb
      · omega
      · rw [packRaw_data (by rw [hlen]; exact hfits), hdata, hnil]
        exact .inr (.inr (.inl rfl))
  · have hbdata : b.data = [0] := by
      rw [hb, packRaw_data (by rw [hroom]; exact Nat.le_trans (by decide) hge)]
      rfl
    have hrem : 4 ≤ b.remainingDataToWrite := by
      rw [remainingDataToWrite, hbdata, hb, packRaw_maxSize]
      exact Nat.le_sub_of_add_le hge
    have hfirst : (b.packRaw (bytesLE 4 0)).data = [0, 0, 0, 0, 0] := by
      rw [packRaw_data (by rw [length_bytesLE]; exact hrem), hbdata]
      rfl
    obtain ⟨rest, hrest⟩ := (((Buffer.packRaw_prefix (b.packRaw (bytesLE 4 0)) _).trans
      (Buffer.packRaw_prefix _ _)).trans (Buffer.packRaw_prefix _ _)).trans
        (Buffer.packRaw_prefix _ (bytesLE 2 (name.length + 1) ++ name ++ [0]))
    rw [hfirst] at hrest
    exact .inr (.inr (.inr ⟨rest, hrest.symm⟩))

/-- **The first packet of the sender**, however it is cut: the receiver finds the command of a first
packet, and no file information is left. -/
theorem clientInit_command {localName : List UInt8} {nNumFiles nTotalSize : ℕ} {s : DcSocket}
    (hs : s.Received (cpFileInitClient localName nNumFiles nTotalSize)) :
    (command s.myRecvBuffer).1 = 0x00 ∧ NoInfo s.stream := by
  obtain hbytes | hbytes | hbytes | ⟨rest, hbytes⟩ :=
    cpFileInitClient_cases localName nNumFiles nTotalSize
  all_goals rw [hbytes] at hs
  · exact (not_received_nil hs).elim
  · obtain hone | ⟨hin, -⟩ := hs
    · obtain ⟨hcommand, hstream⟩ := command_oneByte hone
      exact ⟨hcommand, hstream ▸ .nil⟩
    · have hlen := congrArg List.length hin.bytes
      have hheader := hin.header
      rw [length_append, length_singleton] at hlen
      omega
  · obtain hone | ⟨hin, hfull⟩ := hs
    · obtain ⟨hcommand, hstream⟩ := command_oneByte hone
      exact ⟨hcommand, hstream ▸ .nameLeft⟩
    · -- the two bytes are a size that the rest of the bytes does not reach
      have hlen := congrArg List.length hin.bytes
      have hmax := (full_iff.mp hfull).2
      rw [hin.maxSize] at hmax
      have hvalue : valueLE ([0, 1, 0, 0].take 2) = 256 := rfl
      rw [hvalue] at hmax
      simp only [length_append, length_cons, length_nil] at hlen
      omega
  · obtain hone | ⟨hin, hfull⟩ := hs
    · obtain ⟨hcommand, hstream⟩ := command_oneByte hone
      exact ⟨hcommand, hstream ▸ .numbersLeft (0 :: rest)⟩
    · refine ⟨command_inBytes hin hfull, ?_⟩
      -- a size of zero, and nothing else
      have hmax := Nat.le_antisymm s.myRecvBuffer.data_le (full_iff.mp hfull).2
      rw [hin.maxSize] at hmax
      have hvalue : valueLE ((0 :: 0 :: 0 :: 0 :: 0 :: rest : List UInt8).take 2) = 0 := rfl
      rw [hvalue] at hmax
      rw [(append_inj (hin.bytes.trans (take_append_drop 2 _).symm) hmax).2]
      exact .numbersLeft rest

/-! ## What the calls do -/

namespace FileTransferManager

/-- What the user sees of a call: no file done, nothing written. -/
structure Quiet (m m' : FileTransferManager) : Prop where
  disk : m'.disk = m.disk
  doneFiles : m'.doneFiles = m.doneFiles

theorem Quiet.trans {m m' m'' : FileTransferManager} (h : m.Quiet m') (h' : m'.Quiet m'') :
    m.Quiet m'' :=
  ⟨h'.disk.trans h.disk, h'.doneFiles.trans h.doneFiles⟩

theorem doneFiles_push {m : FileTransferManager} {e : Event} (h : ∀ p, e ≠ .doneFile p) :
    (m.push e).doneFiles = m.doneFiles := by
  have hnone : ([e].filterMap fun
      | .doneFile pathName => some pathName
      | _ => none) = ([] : List (List UInt8)) := by
    cases e with
    | doneFile p => exact absurd rfl (h p)
    | _ => rfl
  rw [doneFiles, push, filterMap_append, hnone, append_nil, doneFiles]

/-- A call that fails ends the connection. -/
theorem after_fail (m : FileTransferManager) (nResult : Result) :
    m.Quiet (after (m.fail nResult)) ∧ (after (m.fail nResult)).nState = .disconnected ∧
      (after (m.fail nResult)).sent = m.sent :=
  ⟨⟨rfl, doneFiles_push (m := (m.fail nResult).1.closeConnection) fun p h => by cases h⟩, rfl, rfl⟩

variable {m : FileTransferManager} {bytes : List UInt8}

/-- **The receiver waits in vain** for the information about a file. -/
theorem processPacket_noInfo (hstate : m.nState = .waitForFileInfo) (hbytes : NoInfo bytes)
    (hsock : m.mySock.Reading bytes) (r : Arrivals) (o : Outside) :
    m.Quiet (after (m.processPacket r o)) ∧ (after (m.processPacket r o)).sent = m.sent ∧
      ((after (m.processPacket r o)).nState = .disconnected ∨
        (after (m.processPacket r o)).nState = .waitForFileInfo ∧
          (after (m.processPacket r o)).mySock.Reading bytes) := by
  rw [processPacket]
  cases hrecv : m.mySock.recvPacket r with
  | none =>
    obtain ⟨hquiet, hclosed, hsent⟩ := m.after_fail
      (if m.nState = .waitForFileInfo then .doneBatch else .errorClosed)
    exact ⟨hquiet, hsent, .inl hclosed⟩
  | some sock =>
    obtain ⟨hfull, hreading⟩ | ⟨hfull, hreceived⟩ := hsock.recvPacket hrecv
    · simp only [hfull, Bool.not_false, if_true]
      exact ⟨⟨rfl, rfl⟩, rfl, .inr ⟨hstate, hreading⟩⟩
    · obtain ⟨hspeed, hdata, hinfo⟩ := hbytes.command hreceived
      have hfail : { m with mySock := sock }.onPacket o sock.myRecvBuffer =
          { m with mySock := sock }.fail .errorHandshake := by
        rw [onPacket, hstate]
        simp only [onFileInfo, hspeed, hdata, hinfo, false_and, if_false, ne_eq, not_false_eq_true,
          if_true]
      obtain ⟨hquiet, hclosed, hsent⟩ := { m with mySock := sock }.after_fail .errorHandshake
      simp only [hfull, Bool.not_true, Bool.false_eq_true, if_false, hfail]
      exact ⟨⟨hquiet.disk, hquiet.doneFiles⟩, hsent, .inl hclosed⟩

/-- **The sender waits in vain** for the answer to its first packet. -/
theorem processPacket_noInit (hstate : m.nState = .waitForServerInit) (hbytes : NoInit bytes)
    (hsock : m.mySock.Reading bytes) (r : Arrivals) (o : Outside) :
    (after (m.processPacket r o)).sent = m.sent ∧
      ((after (m.processPacket r o)).nState = .disconnected ∨
        (after (m.processPacket r o)).nState = .waitForServerInit ∧
          ∃ bytes', NoInit bytes' ∧ (bytes = [] → bytes' = []) ∧
            (after (m.processPacket r o)).mySock.Reading bytes') := by
  rw [processPacket]
  cases hrecv : m.mySock.recvPacket r with
  | none =>
    obtain ⟨-, hclosed, hsent⟩ := m.after_fail
      (if m.nState = .waitForFileInfo then .doneBatch else .errorClosed)
    exact ⟨hsent, .inl hclosed⟩
  | some sock =>
    obtain ⟨hfull, hreading⟩ | ⟨hfull, hreceived⟩ := hsock.recvPacket hrecv
    · simp only [hfull, Bool.not_false, if_true]
      exact ⟨rfl, .inr ⟨hstate, bytes, hbytes, id, hreading⟩⟩
    · have hpacket : { m with mySock := sock }.onPacket o sock.myRecvBuffer =
          { m with mySock := sock }.onServerInit o sock.myRecvBuffer := by
        rw [onPacket, hstate]
      simp only [hfull, Bool.not_true, Bool.false_eq_true, if_false, hpacket]
      obtain ⟨hspeed, hleft⟩ | ⟨hspeed, hinit⟩ := hbytes.command hreceived
      · have hskip : { m with mySock := sock }.onServerInit o sock.myRecvBuffer =
            ({ m with mySock := sock }, true) := by
          simp only [onServerInit, hspeed, if_true]
        rw [hskip]
        refine ⟨rfl, .inr ⟨hstate, _, hleft, fun hnil => ?_, .inl rfl⟩⟩
        exact (not_received_nil (hnil ▸ hreceived)).elim
      · have hfail : { m with mySock := sock }.onServerInit o sock.myRecvBuffer =
            { m with mySock := sock }.fail .errorHandshake := by
          simp only [onServerInit, hspeed, hinit, if_false, ne_eq, not_false_eq_true, if_true]
        obtain ⟨-, hclosed, hsent⟩ := { m with mySock := sock }.after_fail .errorHandshake
        rw [hfail]
        exact ⟨hsent, .inl hclosed⟩

theorem noInit_speed (rest : List UInt8) : NoInit (cpFileSetSpeed 100 ++ rest) := .speed rest

/-- **The receiver takes the first packet for one**, whatever it finds in it, and answers. -/
theorem processPacket_clientInit {localName : List UInt8} {nNumFiles nTotalSize : ℕ}
    (hstate : m.nState = .waitForClientInit) (hsent : m.sent = [])
    (hsock : m.mySock.Reading (cpFileInitClient localName nNumFiles nTotalSize)) (r : Arrivals)
    (o : Outside) :
    m.Quiet (after (m.processPacket r o)) ∧
      ((after (m.processPacket r o)).sent = [] ∧
          (after (m.processPacket r o)).nState = .waitForClientInit ∧
          (after (m.processPacket r o)).mySock.Reading
            (cpFileInitClient localName nNumFiles nTotalSize) ∨
        NoInit (after (m.processPacket r o)).sent ∧
          ((after (m.processPacket r o)).nState = .disconnected ∨
            (after (m.processPacket r o)).nState = .waitForFileInfo ∧
              ∃ bytes, NoInfo bytes ∧ (after (m.processPacket r o)).mySock.Reading bytes)) := by
  rw [processPacket]
  cases hrecv : m.mySock.recvPacket r with
  | none =>
    obtain ⟨hquiet, hclosed, hsame⟩ := m.after_fail
      (if m.nState = .waitForFileInfo then .doneBatch else .errorClosed)
    refine ⟨hquiet, .inr ⟨?_, .inl hclosed⟩⟩
    rw [hsame, hsent]
    exact .nil
  | some sock =>
    obtain ⟨hfull, hreading⟩ | ⟨hfull, hreceived⟩ := hsock.recvPacket hrecv
    · simp only [hfull, Bool.not_false, if_true]
      exact ⟨⟨rfl, rfl⟩, .inl ⟨hsent, hstate, hreading⟩⟩
    · obtain ⟨hcommand, hleft⟩ := clientInit_command hreceived
      have hpacket : { m with mySock := sock }.onPacket o sock.myRecvBuffer =
          { m with mySock := sock }.onClientInit o sock.myRecvBuffer := by
        rw [onPacket, hstate]
      simp only [hfull, Bool.not_true, Bool.false_eq_true, if_false, hpacket]
      have hzero : ¬ (0x00 : Int8) = 0x05 := by decide
      simp only [onClientInit, hcommand, hzero, ne_eq, not_true_eq_false, if_false]
      obtain ⟨m₁, hm₁⟩ : ∃ m₁, m₁ = { m with mySock := sock }.readClientInit
          (command sock.myRecvBuffer).2 := ⟨_, rfl⟩
      have hquiet₁ : m.Quiet m₁ := by
        rw [hm₁]
        exact ⟨rfl, doneFiles_push (m := m) (e := .startBatch) fun p h => by cases h⟩
      have hsent₁ : m₁.sent = [] := by
        rw [hm₁]
        exact hsent
      rw [← hm₁]
      by_cases hnone : o.sends = 0
      · rw [if_pos hnone]
        obtain ⟨hquiet, hclosed, hsame⟩ := m₁.after_fail .errorClosed
        refine ⟨hquiet₁.trans hquiet, .inr ⟨?_, .inl hclosed⟩⟩
        exact hsame.trans hsent₁ ▸ .nil
      rw [if_neg hnone]
      by_cases hone : o.sends = 1
      · rw [if_pos hone]
        obtain ⟨hquiet, hclosed, hsame⟩ :=
          (m₁.sendBuffer (cpFileSetSpeed 100)).after_fail .errorClosed
        refine ⟨hquiet₁.trans ⟨hquiet.disk, hquiet.doneFiles⟩, .inr ⟨?_, .inl hclosed⟩⟩
        have hspeed : m₁.sent ++ cpFileSetSpeed 100 = cpFileSetSpeed 100 ++ [] := by
          rw [hsent₁, nil_append, append_nil]
        exact hsame.trans hspeed ▸ noInit_speed []
      · rw [if_neg hone]
        refine ⟨hquiet₁.trans ⟨rfl, rfl⟩, .inr ⟨?_, .inr ⟨rfl, _, hleft, .inl rfl⟩⟩⟩
        change NoInit (m₁.sent ++ cpFileSetSpeed 100 ++ cpFileInitServer m₁.myLocalName)
        rw [hsent₁]
        exact noInit_speed _

end FileTransferManager

/-! ## Every run -/

theorem arrive_nil (m : FileTransferManager) : m.arrive [] = m := by
  rw [FileTransferManager.arrive, append_nil]

theorem deliver_nil {sender receiver : FileTransferManager} (hs : sender.sent = [])
    (hr : receiver.sent = []) : Link.deliver sender receiver = ⟨sender, receiver⟩ := by
  have hsender : { sender with sent := [] } = sender := by rw [← hs]
  have hreceiver : { receiver with sent := [] } = receiver := by rw [← hr]
  rw [Link.deliver, hs, hr, hsender, hreceiver, arrive_nil, arrive_nil]

/-- The sender waits for the answer to its first packet, or has given up. -/
def SenderWaits (m : FileTransferManager) (bytes : List UInt8) : Prop :=
  m.nState = .disconnected ∨ m.nState = .waitForServerInit ∧ m.mySock.Reading bytes

/-- The receiver waits for the first packet, or for the information about a file, or has given
up. -/
def ReceiverWaits (i : Input) (m : FileTransferManager) (answered : List UInt8) : Prop :=
  answered = [] ∧ m.nState = .waitForClientInit ∧ m.mySock.Reading i.clientInit ∨
    (m.nState = .disconnected ∨
      m.nState = .waitForFileInfo ∧ ∃ bytes, NoInfo bytes ∧ m.mySock.Reading bytes)

/-- **Neither manager comes further**: the sender has no answer to its first packet, and the receiver
no information about a file. -/
structure Stuck (i : Input) (s : Link) : Prop where
  quiet : i.start.receiver.Quiet s.receiver
  senderSent : s.sender.sent = []
  receiverSent : s.receiver.sent = []
  waits : ∃ bytes, NoInit bytes ∧ SenderWaits s.sender bytes ∧ ReceiverWaits i s.receiver bytes

namespace Stuck

variable {i : Input} {s : Link}

theorem start (i : Input) : Stuck i i.start where
  quiet := ⟨rfl, rfl⟩
  senderSent := rfl
  receiverSent := rfl
  waits := ⟨[], .nil, .inr ⟨rfl, .inl rfl⟩, .inl ⟨rfl, rfl, .inl rfl⟩⟩

theorem senderReceives (h : Stuck i s) (hstate : s.sender.nState ≠ .disconnected) (r : Arrivals)
    (o : Outside) : Stuck i (.deliver (.after (s.sender.processPacket r o)) s.receiver) := by
  obtain ⟨bytes, hbytes, hsender, hreceiver⟩ := h.waits
  obtain hclosed | ⟨hwait, hreading⟩ := hsender
  · exact absurd hclosed hstate
  · obtain ⟨hsent, hafter⟩ := FileTransferManager.processPacket_noInit hwait hbytes hreading r o
    have hsent := hsent.trans h.senderSent
    rw [deliver_nil hsent h.receiverSent]
    refine ⟨h.quiet, hsent, h.receiverSent, ?_⟩
    obtain hclosed | ⟨hwait, bytes', hbytes', hnil, hreading⟩ := hafter
    · exact ⟨bytes, hbytes, .inl hclosed, hreceiver⟩
    · exact ⟨bytes', hbytes', .inr ⟨hwait, hreading⟩, hreceiver.imp_left fun h => ⟨hnil h.1, h.2⟩⟩

theorem receiverReceives (h : Stuck i s) (hstate : s.receiver.nState ≠ .disconnected) (r : Arrivals)
    (o : Outside) : Stuck i (.deliver s.sender (.after (s.receiver.processPacket r o))) := by
  obtain ⟨bytes, hbytes, hsender, ⟨rfl, hwait, hreading⟩ | hclosed | ⟨hwait, left, hleft, hreading⟩⟩ :=
    h.waits
  · obtain ⟨hquiet, ⟨hsent, hwait, hreading⟩ | ⟨hsent, hafter⟩⟩ :=
      FileTransferManager.processPacket_clientInit hwait h.receiverSent hreading r o
    · rw [deliver_nil h.senderSent hsent]
      exact ⟨h.quiet.trans hquiet, h.senderSent, hsent, [], .nil, hsender,
        .inl ⟨rfl, hwait, hreading⟩⟩
    · -- what the receiver has answered gets to the sender
      rw [Link.deliver, h.senderSent, arrive_nil]
      refine ⟨h.quiet.trans ⟨hquiet.disk, hquiet.doneFiles⟩, rfl, rfl, _, hsent, ?_, .inr hafter⟩
      exact hsender.imp_right fun hwaits => ⟨hwaits.1, hwaits.2.append _⟩
  · exact absurd hclosed hstate
  · obtain ⟨hquiet, hsent, hafter⟩ :=
      FileTransferManager.processPacket_noInfo hwait hleft hreading r o
    have hsent := hsent.trans h.receiverSent
    rw [deliver_nil h.senderSent hsent]
    refine ⟨h.quiet.trans hquiet, h.senderSent, hsent, bytes, hbytes, hsender, .inr ?_⟩
    exact hafter.imp_right fun hafter => ⟨hafter.1, left, hleft, hafter.2⟩

/-- **One step.** -/
theorem step {s' : Link} {a : Act} (h : Stuck i s) (hs' : s.step a = some s') : Stuck i s' := by
  cases a with
  | senderReceives r o =>
    by_cases hstate : s.sender.nState = .disconnected
    · simp only [Link.step, hstate, if_true] at hs'
      cases hs'
    · simp only [Link.step, hstate, if_false] at hs'
      cases hs'
      exact h.senderReceives hstate r o
  | senderSends o =>
    have hstate : s.sender.nState ≠ .sendingFile := by
      obtain ⟨bytes, -, hclosed | ⟨hwait, -⟩, -⟩ := h.waits
      · rw [hclosed]
        decide
      · rw [hwait]
        decide
    simp only [Link.step, hstate, if_false] at hs'
    cases hs'
  | receiverReceives r o =>
    by_cases hstate : s.receiver.nState = .disconnected
    · simp only [Link.step, hstate, if_true] at hs'
      cases hs'
    · simp only [Link.step, hstate, if_false] at hs'
      cases hs'
      exact h.receiverReceives hstate r o
  | confirm o fileName =>
    have hstate : s.receiver.nState ≠ .confirmingFile := by
      obtain ⟨bytes, -, -, ⟨-, hwait, -⟩ | hclosed | ⟨hwait, -⟩⟩ := h.waits
      · rw [hwait]
        decide
      · rw [hclosed]
        decide
      · rw [hwait]
        decide
    simp only [Link.step, FileTransferManager.startReceivingFile, ne_eq, hstate, not_false_eq_true,
      if_true] at hs'
    cases hs'
    rw [deliver_nil h.senderSent h.receiverSent]
    exact h

end Stuck

/-- **No run comes further than the first packet**, and nothing is written. -/
theorem stays_stuck (i : Input) (acts : List Act) :
    Steps.Stays Link.step (Stuck i) i.start acts :=
  @Steps.stays_of_each _ _ Link.step (Stuck i) (fun _ _ => True) (fun _ _ _ h _ hs' => h.step hs') _
    (.start i) acts (Steps.each_of_forall (fun _ _ => trivial) _ _)

theorem files_ne_nil (i : Input) : i.files ≠ [] := by
  obtain ⟨pathName, hmem, hstat⟩ := i.exists_file
  exact ne_nil_of_mem (mem_filter.mpr ⟨hmem, hstat⟩)

theorem Stuck.not_arrived {i : Input} {s : Link} (h : Stuck i s) : ¬ Arrived i s := by
  intro harrived
  have hnone : s.receiver.doneFiles = [] := h.quiet.doneFiles
  rw [Arrived, hnone, forall₂_nil_right_iff] at harrived
  exact files_ne_nil i harrived

/-- **Main result.**  Whatever files are sent and whatever is on the receiver's disk, in no run do
they arrive: the packets are sent without the two bytes of their size, and the first packet is all
that either manager takes. -/
theorem not_delivers (i : Input) : ¬ Delivers i := by
  rintro ⟨acts, s, hrun, harrived⟩
  exact ((stays_stuck i acts).foldlM hrun).not_arrived harrived

/-- A file of one byte, for a receiver without files. -/
def oneFile : Input where
  senderName := [0x61]
  receiverName := [0x62]
  senderUpdates := 0
  receiverUpdates := 0
  senderDisk := ⟨fun path => if path = [0x66] then some (.file [0x68]) else none, fun _ => true⟩
  receiverDisk := ⟨fun _ => none, fun _ => true⟩
  directory := [0x64]
  pathNames := [[0x66]]
  exists_file := ⟨[0x66], List.mem_singleton_self _, by decide⟩

/-- The receiver takes the first four bytes of the first packet for two packets without anything in
them, and closes the connection at the second. -/
theorem not_delivers_oneFile :
    (∃ s, [Act.receiverReceives ⟨some 2, some 0⟩ ⟨0, 2, none⟩,
          Act.receiverReceives ⟨some 2, some 0⟩ ⟨0, 2, none⟩].foldlM Link.step oneFile.start = some s ∧
        s.receiver.nState = .disconnected ∧ s.receiver.nResult = some .errorHandshake) ∧
      ¬ Delivers oneFile := by
  refine ⟨?_, ?_⟩
  · have hrun : ([Act.receiverReceives ⟨some 2, some 0⟩ ⟨0, 2, none⟩,
          Act.receiverReceives ⟨some 2, some 0⟩ ⟨0, 2, none⟩].foldlM Link.step oneFile.start).map
        (fun s => (s.receiver.nState, s.receiver.nResult)) =
          some (.disconnected, some .errorHandshake) := by
      decide +kernel
    obtain ⟨s, hs, heq⟩ := Option.map_eq_some_iff.mp hrun
    exact ⟨s, hs, congrArg Prod.fst heq, congrArg Prod.snd heq⟩
  · rintro ⟨acts, s, hrun, harrived⟩
    exact ((stays_stuck oneFile acts).foldlM hrun).not_arrived harrived

end Licq.FileTransfer
