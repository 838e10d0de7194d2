import ProjZ.Streamer.Decoding
import ProjZ.Streamer.Multipart
import ProjZ.Streamer.RequestReader

/-!
# A client of the HTTP server

`client_thread` of `httpd.c` reads a request line and header lines, looks for what is asked, and
answers. It is compiled without `MANAGMENT` and `WXP_COMPAT`. What answers with pictures or JSON
is a `Reply` that names the function called; `command`, `send_file` and `execute_cgi` are here.
`none` is an access outside some memory, a read of bytes that nobody has written, or a call
through `NULL`.
-/

namespace ProjZ

namespace Httpd

open Ascii CString

/-! ## Requests -/

/-- `answer_t`. -/
inductive Answer where
  | unknown
  | snapshot
  | snapshotWxp
  | stream
  | streamWxp
  | command
  | file
  | cgi
  | take
  | inputJson
  | outputJson
  | programJson
deriving DecidableEq, Repr

/-- `request`. Of `query_string` the bytes that have been written are here, with the `NUL` if
there is one. -/
structure Request where
  type : Answer
  parameter : Option (List UInt8)
  client : Option (List UInt8)
  credentials : Option (List UInt8)
  query_string : Option (List UInt8)
deriving DecidableEq, Repr

/-- `init_request`. -/
def initRequest : Request := ⟨.unknown, none, none, none, none⟩

/-- What the request line asks for, and whether its number of a plugin counts; or the error that
it is answered with. -/
inductive Asked where
  | request (req : Request) (query_suffixed : Bool)
  | refused (which : Nat) (message : List UInt8)
deriving DecidableEq, Repr

/-- The letters that are accepted. -/
def letters : List UInt8 := literal "abcdefghijklmnopqrstuvwxyzABCDEFGHIJKLMNOPQRSTUVWXYZ"

/-- The characters that are accepted in the parameter of a command. -/
def commandChars : List UInt8 := letters ++ literal "_-=&1234567890%./"

/-- The characters that are accepted in the name of a file. -/
def fileChars : List UInt8 := letters ++ literal "._-1234567890"

/-- The characters that are accepted in the query of a script. -/
def queryChars : List UInt8 := letters ++ literal "._-1234567890=&"

/-- The first characters of `pb`, as many as are accepted, but at most 100. -/
def acceptedPart (pb accept : List UInt8) : List UInt8 := pb.take (min (strspn pb accept) 100)

/-- The memory that a text is copied to. -/
def allocated (s : List UInt8) : CharBuf (s.length + 1) :=
  ⟨s ++ [0], by rw [List.length_append, List.length_singleton]⟩

/-- A request with the parameter at `pb`, unescaped. -/
def withParameter (type : Answer) (query_suffixed : Bool) (pb : List UInt8) : Option Asked :=
  match unescape (allocated (acceptedPart pb commandChars)) with
  | .done mem =>
    some (.request { initRequest with type := type, parameter := some (cstr mem.bytes) }
      query_suffixed)
  | .malformed =>
    some (.refused 500 (literal "could not properly unescape command parameter string"))
  | .outside => none

/-- A request for the file at `pb`. A query is copied without a `NUL` behind it. -/
def withFile (pb : List UInt8) : Request :=
  let req := { initRequest with type := .file, parameter := some (acceptedPart pb fileChars) }
  if (strstr pb (literal ".cgi")).isSome then
    -- the `?` may be anywhere behind the name
    match strchr pb 63 with
    | some pb =>
      let pb := pb.drop 1
      { req with type := .cgi, query_string := some (pb.take (strspn pb queryChars)) }
    | none => { req with type := .cgi, query_string := some (literal " " ++ [0]) }
  else req

/-- The branches on the request line. -/
def determine (buffer : List UInt8) : Option Asked :=
  if (strstr buffer (literal "GET /?action=snapshot")).isSome then
    some (.request { initRequest with type := .snapshot } true)
  else if (strstr buffer (literal "GET /?action=stream")).isSome then
    some (.request { initRequest with type := .stream } true)
  else
    match strstr buffer (literal "GET /?action=take") with
    | some pb => withParameter .take true (pb.drop 17)
    | none =>
      if (strstr buffer (literal "GET /input")).isSome ∧
          (strstr buffer (literal ".json")).isSome then
        some (.request { initRequest with type := .inputJson } true)
      else if (strstr buffer (literal "GET /output")).isSome ∧
          (strstr buffer (literal ".json")).isSome then
        some (.request { initRequest with type := .outputJson } true)
      else if (strstr buffer (literal "GET /program.json")).isSome then
        some (.request { initRequest with type := .programJson } false)
      else
        match strstr buffer (literal "GET /?action=command") with
        | some pb => withParameter .command false (pb.drop 20)
        | none =>
          match strstr buffer (literal "GET /") with
          | some pb => some (.request (withFile (pb.drop 5)) false)
          | none => some (.refused 400 (literal "Malformed HTTP request"))

/-- The number behind the first `_` of the request line. -/
def inputNumber (buffer : List UInt8) : Int :=
  match strchr buffer 95 with
  | some sch => strtol ((sch.drop 1).take 1)
  | none => 0

/-- What a header line, with its `NUL` behind it, changes of a request. -/
def header (req : Request) (line : List UInt8) : Option Request :=
  let buffer := cstr line
  if (strstr buffer (literal "User-Agent: ")).isSome then
    -- the text is taken from this column on, wherever the name stands in the line
    some { req with client := some (cstr (line.drop 12)) }
  else if (strstr buffer (literal "Authorization: Basic ")).isSome then do
    let mem ← decodeBase64 (allocated (cstr (line.drop 21)))
    some { req with credentials := some (cstr mem.bytes) }
  else some req

/-- More header lines follow. -/
def More (line : List UInt8) : Prop := 2 < line.length ∧ line.take 2 ≠ [13, 10]

instance (line : List UInt8) : Decidable (More line) := inferInstanceAs (Decidable (_ ∧ _))

/-- The loop over the header lines, for at most `fuel` of them; `some none` when the client is
given up. -/
def readHeaders : Nat → Request → Connection → Option (Option Request)
  | 0, _, _ => none
  | fuel + 1, req, conn =>
    match readline (BUFFER_SIZE - 1) conn with
    | none => some none
    | some (line, conn) => do
      let req ← header req line
      if More line then readHeaders fuel req conn else some (some req)

/-! ## Answers -/

/-- `cmd` of a plugin: control, group, value and the text of the value. -/
abbrev Cmd := Int → Int → Int → Option (List UInt8) → Int32

/-- An entry of `in` or `out`. -/
structure Plugin where
  name : Option (List UInt8)
  cmd : Option Cmd

/-- The plugins of `globals`; `incnt` and `outcnt` are their numbers. -/
structure Globals where
  inputs : List Plugin
  outputs : List Plugin

/-- `config`. -/
structure Config where
  port : Int32
  credentials : Option (List UInt8)
  www_folder : Option (List UInt8)
  nocommands : Bool

/-- What a client thread works with: the configuration, the plugins, and what can be opened and
run. -/
structure Context where
  conf : Config
  pglobal : Globals
  opens : List UInt8 → Bool
  runs : List UInt8 → Bool

/-- What is done for a client. -/
inductive Reply where
  | error (which : Nat) (message : List UInt8)
  | snapshot (input_number : Int)
  | stream (input_number : Int)
  | inputJson (input_number : Int)
  | outputJson (input_number : Int)
  | programJson
  | cmd (dest plugin control_id group value : Int) (value_str : Option (List UInt8))
  | text (s : List UInt8)
  | file (path mimetype : List UInt8)
  | script (path command : List UInt8)
deriving DecidableEq, Repr

/-- `sprintf` into a buffer of `size` bytes. -/
def sprintf (size : Nat) (s : List UInt8) : Option (List UInt8) :=
  if s.length < size then some s else none

/-- `send_error`. -/
def sendError (which : Nat) (message : List UInt8) : Option (List Reply) :=
  (sprintf BUFFER_SIZE (errorText which message)).map fun _ => [.error which message]

/-- The path of a file, put together in a buffer by `strncat`. -/
def filePath (www_folder parameter : List UInt8) : List UInt8 :=
  -- `strncat` twice, into an empty buffer
  let buffer := www_folder.take (BUFFER_SIZE - 1)
  buffer ++ parameter.take (BUFFER_SIZE - buffer.length - 1)

/-- `mimetypes` -/
def mimetypes : List (List UInt8 × List UInt8) :=
  [(literal ".html", literal "text/html"),
   (literal ".htm", literal "text/html"),
   (literal ".css", literal "text/css"),
   (literal ".js", literal "text/javascript"),
   (literal ".txt", literal "text/plain"),
   (literal ".jpg", literal "image/jpeg"),
   (literal ".jpeg", literal "image/jpeg"),
   (literal ".png", literal "image/png"),
   (literal ".gif", literal "image/gif"),
   (literal ".ico", literal "image/x-icon"),
   (literal ".swf", literal "application/x-shockwave-flash"),
   (literal ".cab", literal "application/x-shockwave-flash"),
   (literal ".jar", literal "application/java-archive"),
   (literal ".json", literal "application/json")]

/-- The loop of `send_file` over the dots of the parameter, for at most `fuel` of them. -/
def lastDotLoop (parameter : List UInt8) : Nat → Option (List UInt8) → Nat → Nat
  | fuel + 1, some pch, _ =>
    lastDotLoop parameter fuel (strchr (pch.drop 1) 46) (parameter.length - pch.length)
  | _, _, lastDot => lastDot

/-- The text in front of a file. -/
def fileHeader (mimetype : List UInt8) : List UInt8 :=
  literal "HTTP/1.0 200 OK\r\n" ++ (literal "Content-type: " ++ mimetype ++ literal "\r\n") ++
  STD_HEADER ++ literal "\r\n"

/-- `send_file`. -/
def sendFile (pc : Context) (www_folder parameter : List UInt8) : Option (List Reply) :=
  let parameter := if parameter.length = 0 then literal "index.html" else parameter
  let lastDot := lastDotLoop parameter (parameter.length + 1) (strchr parameter 46) 0
  if lastDot = 0 then sendError 400 (literal "No file extension found")
  else
    match mimetypes.find? fun m => m.1 = parameter.drop lastDot with
    | none => sendError 404 (literal "MIME-TYPE not known")
    | some m =>
      let path := filePath www_folder parameter
      if pc.opens path then
        (sprintf BUFFER_SIZE (fileHeader m.2)).map fun _ => [.file path m.2]
      else sendError 404 (literal "Could not open file")

/-- `enviroment`: the format of a command for the shell. -/
def enviroment : List UInt8 :=
  literal "SERVER_SOFTWARE=\"mjpg-streamer\" " ++
  literal "SERVER_PROTOCOL=\"HTTP/1.1\" " ++
  literal "SERVER_PORT=\"%d\" " ++
  literal "GATEWAY_INTERFACE=\"CGI/1.1\" " ++
  literal "REQUEST_METHOD=\"GET\" " ++
  literal "SCRIPT_NAME=\"%s\" " ++
  literal "QUERY_STRING=\"%s\" " ++
  literal "%s"

/-- What `sprintf` makes of a format: each `%` and the character behind it stand for a value. -/
def format : List UInt8 → List (List UInt8) → List UInt8
  | 37 :: _ :: fmt, value :: values => value ++ format fmt values
  | c :: fmt, values => c :: format fmt values
  | [], _ => []

/-- What the shell is given: `enviroment` with its four values. -/
def scriptCommand (port : Int32) (parameter query_string path : List UInt8) : List UInt8 :=
  format enviroment [Decimal.printfInt port.toInt, parameter, query_string, path]

/-- `execute_cgi`. The memory of `buffer` has room for 256 characters more than the format, the
parameter and the path. -/
def executeCgi (pc : Context) (parameter query_string : List UInt8) : Option (List Reply) := do
  -- whether a folder is configured has not been checked
  let www_folder ← pc.conf.www_folder
  let path := filePath www_folder parameter
  if pc.opens path then do
    let buffer_length := path.length + enviroment.length + parameter.length + 256
    let query_string ← text query_string
    let buffer ← sprintf buffer_length (scriptCommand pc.conf.port parameter query_string path)
    if pc.runs buffer then some [.script path buffer]
    else sendError 403 (literal "CGI script cannot be executed")
  else sendError 404 (literal "Could not open file")

/-- The number at the start of a text. -/
def number (s : List UInt8) : Int :=
  max (min (strtol (s.take (strspn s (literal "-1234567890")))) 2147483647) (-2147483648)

/-- The text behind a variable of a command. -/
def getVariable (parameter name : List UInt8) : Option (List UInt8) :=
  (strstr parameter name).map (·.drop name.length)

/-- The number that a variable of a command is given, or 0. -/
def getNumber (parameter name : List UInt8) : Int :=
  ((getVariable parameter name).map number).getD 0

/-- The call of `cmd` of a plugin. -/
def callCmd (dest : Int) (plugins : List Plugin) (plugin_no command_id group ivalue : Int)
    (value : Option (List UInt8)) : Option (Int32 × List Reply) :=
  if plugin_no < plugins.length then do
    -- only the upper bound is checked; `in` and `out` begin with 0
    if plugin_no < 0 then none
    else
      let plugin ← plugins[plugin_no.toNat]?
      let cmd ← plugin.cmd
      some (cmd command_id group ivalue value, [.cmd dest plugin_no command_id group ivalue value])
  else some (0, [])

/-- The `switch` over the destination of a command. -/
def callDest (pc : Context) (dest plugin_no command_id group ivalue : Int)
    (value : Option (List UInt8)) : Option (Int32 × List Reply) :=
  if dest = 0 then callCmd dest pc.pglobal.inputs plugin_no command_id group ivalue value
  else if dest = 1 then callCmd dest pc.pglobal.outputs plugin_no command_id group ivalue value
  else some (0, [])

/-- The answer to a command. -/
def commandText (command : List UInt8) (res : Int32) : List UInt8 :=
  literal "HTTP/1.0 200 OK\r\n" ++ literal "Content-type: text/plain\r\n" ++ STD_HEADER ++
  literal "\r\n" ++ (command ++ literal ": " ++ Decimal.printfInt res.toInt)

/-- `command`. -/
def command (pc : Context) (parameter : List UInt8) : Option (List Reply) :=
  if 255 ≤ parameter.length ∨ parameter.length = 0 then
    sendError 400 (literal "Parameter-string of command does not look valid.")
  else
    match getVariable parameter (literal "id=") with
    | none =>
      sendError 400 (literal "no GET variable \"id=...\" found, " ++
        literal "it is required to specify which command id to execute")
    | some id => do
      -- digits and letters; the number is what it begins with
      let command := id.take (strspn id (letters ++ literal "_1234567890"))
      let command_id := number command
      let ivalue := getNumber parameter (literal "value=")
      let group := getNumber parameter (literal "group=")
      let dest := getNumber parameter (literal "dest=")
      let value := getVariable parameter (literal "plugin=")
      let plugin_no := getNumber parameter (literal "plugin=")
      let res ← callDest pc dest plugin_no command_id group ivalue value
      let buffer ← sprintf BUFFER_SIZE (commandText command res.1)
      some (res.2 ++ [.text buffer])

/-- The bytes of `filenamearg`: the name of the file that is to be taken. -/
def takenName (parameter : List UInt8) : Option (List UInt8) :=
  (getVariable parameter (literal "filename=")).map fun filename =>
    match strchr filename 38 with
    | none => filename
    | some fn => filename.take (filename.length - fn.length)

/-- The plugin that writes files. -/
def isFilePlugin (plugin : Plugin) : Bool :=
  match plugin.name with
  | none => false
  | some name => (strstr name (literal "FILE output plugin")).isSome

/-- The plugin that writes files is called. It reads the name as a text, for which `calloc` has
left no room for a `NUL`. -/
def takeFile (pc : Context) (i : Nat) (parameter : List UInt8) : Option (Int32 × List Reply) :=
  match takenName parameter with
  | some filenamearg => do callCmd 1 pc.pglobal.outputs i 1 0 0 (some (← text filenamearg))
  | none =>
    -- `ret` is 0 still, so that the picture is sent behind the error
    (sendError 404 (literal "The &filename= must present for the take command in the URL")).map
      fun error => (0, error)

/-- The answer to a request to take a picture. -/
def take (pc : Context) (parameter : List UInt8) (input_number : Int) : Option (List Reply) :=
  match pc.pglobal.outputs.findIdx? isFilePlugin with
  | none =>
    sendError 404 (literal "FILE output plugin not loaded, taking snapshot not possible")
  | some i => do
    let ret ← takeFile pc i parameter
    if ret.1 = 0 then some (ret.2 ++ [.snapshot input_number])
    else (sendError 404 (literal "Taking snapshot failed!")).map fun error => ret.2 ++ error

/-- The `switch` over the type of the request. -/
def dispatch (pc : Context) (req : Request) (input_number : Int) : Option (List Reply) :=
  match req.type with
  | .snapshotWxp => some [.snapshot input_number]
  | .snapshot => some [.snapshot input_number]
  | .stream => some [.stream input_number]
  | .command =>
    if pc.conf.nocommands = true then
      sendError 501 (literal "this server is configured to not accept commands")
    else do command pc (← req.parameter)
  | .inputJson => some [.inputJson input_number]
  | .outputJson => some [.outputJson input_number]
  | .programJson => some [.programJson]
  | .file =>
    match pc.conf.www_folder with
    | none => sendError 501 (literal "no www-folder configured")
    | some www_folder => do sendFile pc www_folder (← req.parameter)
  | .take => do take pc (← req.parameter) input_number
  | .cgi => do executeCgi pc (← req.parameter) (← req.query_string)
  | .streamWxp => some []
  | .unknown => some []

/-- What `client_thread` does once the request has been read. -/
def answer (pc : Context) (req : Request) (query_suffixed : Bool) (input_number : Int) :
    Option (List Reply) :=
  if pc.conf.credentials ≠ none ∧ req.credentials ≠ pc.conf.credentials then
    sendError 401 (literal "username and password do not match to configuration")
  else if query_suffixed = true ∧ req.type = .outputJson ∧
      ¬input_number < pc.pglobal.outputs.length then
    sendError 404 (literal "Invalid output plugin number")
  else if query_suffixed = true ∧ req.type ≠ .outputJson ∧
      ¬input_number < pc.pglobal.inputs.length then
    sendError 404 (literal "Invalid input plugin number")
  else dispatch pc req input_number

/-- `client_thread`, for a client that is connected now. -/
def clientThread (pc : Context) (socket : List Poll) : Option (List Reply) :=
  match readline (BUFFER_SIZE - 1) ⟨socket, .init⟩ with
  | none => some []
  | some (line, conn) => do
    match ← determine (cstr line) with
    | .refused which message => sendError which message
    | .request req query_suffixed =>
      -- the number is looked for in the whole line
      let input_number := if query_suffixed then inputNumber (cstr line) else 0
      match ← readHeaders (conn.stream.length + 1) req conn with
      | none => some []
      | some req => answer pc req query_suffixed input_number

end Httpd

end ProjZ
