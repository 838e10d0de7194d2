import ProjZ.Streamer.Conversation

/-!
# What a client can get

Whatever bytes a client sends, it gets nothing but errors without the credentials (`guarded`),
and with them nothing outside the plugins there are and the files of the configured folder
(`proper_clientThread`), as long as the thread stays inside its memory.
-/

namespace ProjZ

namespace Httpd

open Ascii CString Lines

/-! ## Errors -/

/-- Nothing but errors. -/
def OnlyErrors (r : Option (List Reply)) : Prop :=
  ∃ rs, r = some rs ∧ ∀ reply ∈ rs, ∃ which message, reply = .error which message

/-- The text of an error is its message and a header of fixed length. -/
theorem length_errorText_le (which : Nat) (message : List UInt8) :
    (errorText which message).length ≤ 400 + message.length := by
  have hclosed : ∀ s : List UInt8, s.length ≤ 400 → (s ++ message).length ≤ 400 + message.length :=
    fun s hs => by rw [List.length_append]; exact Nat.add_le_add_right hs _
  unfold errorText
  repeat' split
  all_goals exact hclosed _ (by decide +kernel)

/-- The messages fit the buffer. -/
theorem sendError_eq {which : Nat} {message : List UInt8} (h : message.length ≤ 100 := by decide) :
    sendError which message = some [.error which message] := by
  have hle := length_errorText_le which message
  have hfits : (errorText which message).length < BUFFER_SIZE := by
    unfold BUFFER_SIZE
    omega
  unfold sendError sprintf
  rw [if_pos hfits]
  rfl

/-- A refusal is an error, and no more. -/
theorem onlyErrors_sendError {which : Nat} {message : List UInt8} (h : message.length ≤ 100) :
    OnlyErrors (sendError which message) := by
  refine ⟨_, sendError_eq h, fun reply hreply => ?_⟩
  exact ⟨which, message, List.mem_singleton.mp hreply⟩

/-- A refusal is one error, -/
theorem onlyErrors_refused {which : Nat} {message : List UInt8}
    (h : Understood (.refused which message)) : OnlyErrors (sendError which message) := by
  cases h with
  | malformed => exact onlyErrors_sendError (by decide)
  | escapes => exact onlyErrors_sendError (by decide)

/-- and silence is none. -/
theorem onlyErrors_nothing : OnlyErrors (some []) := ⟨[], rfl, fun _ h => absurd h List.not_mem_nil⟩

/-! ## Admission -/

/-- The credentials that the lines of a client present. -/
def presented : List (List UInt8) → Option (List UInt8)
  | [] => none
  | _ :: ls => (headerLines ls).bind fun hs => (hs.filterMap authorization).getLast?

/-- The plugin with this number is there, if the request is about one. -/
structure Numbered (pc : Context) (req : Request) (query_suffixed : Bool) (n : Int) : Prop where
  input : query_suffixed = true → req.type ≠ .outputJson → n < pc.pglobal.inputs.length
  output : query_suffixed = true → req.type = .outputJson → n < pc.pglobal.outputs.length

/-- The request that is dispatched for the lines of a client. -/
inductive Admitted (pc : Context) : List (List UInt8) → Request → Int → Prop where
  | mk {line : List UInt8} {ls hs : List (List UInt8)} {req : Request} {query_suffixed : Bool}
    {n : Int} (hasked : determine (cstr line) = some (.request req query_suffixed))
    (hheaders : headerLines ls = some hs)
    (hn : n = if query_suffixed = true then inputNumber (cstr line) else 0)
    (hcred : pc.conf.credentials = none ∨
      (hs.foldl heard req).credentials = pc.conf.credentials)
    (hnumbered : Numbered pc (hs.foldl heard req) query_suffixed n) :
    Admitted pc (line :: ls) (hs.foldl heard req) n

/-- A request is refused, or it passes all checks. -/
theorem answer_cases (pc : Context) (req : Request) (query_suffixed : Bool) (n : Int) :
    OnlyErrors (answer pc req query_suffixed n) ∨
      (pc.conf.credentials = none ∨ req.credentials = pc.conf.credentials) ∧
        Numbered pc req query_suffixed n := by
  unfold answer
  by_cases hcred : pc.conf.credentials ≠ none ∧ req.credentials ≠ pc.conf.credentials
  · rw [if_pos hcred]
    exact .inl (onlyErrors_sendError (by decide))
  · rw [if_neg hcred]
    split
    next => exact .inl (onlyErrors_sendError (by decide))
    next hout =>
      split
      next => exact .inl (onlyErrors_sendError (by decide))
      next hin =>
        refine .inr ⟨?_, ?_, ?_⟩
        · rw [not_and_or, not_not, not_not] at hcred
          exact hcred
        · intro hsuffixed htype
          exact not_not.mp fun h => hin ⟨hsuffixed, htype, h⟩
        · intro hsuffixed htype
          exact not_not.mp fun h => hout ⟨hsuffixed, htype, h⟩

/-- Past the credentials and the plugin number, the request is served. -/
theorem answer_admitted {pc : Context} {req : Request} {query_suffixed : Bool} {n : Int}
    (hcred : pc.conf.credentials = none ∨ req.credentials = pc.conf.credentials)
    (hnumbered : Numbered pc req query_suffixed n) :
    answer pc req query_suffixed n = dispatch pc req n := by
  have hnot : ¬(pc.conf.credentials ≠ none ∧ req.credentials ≠ pc.conf.credentials) := by
    rw [not_and_or, not_not, not_not]
    exact hcred
  unfold answer
  rw [if_neg hnot, if_neg fun h => h.2.2 (hnumbered.output h.1 h.2.1),
    if_neg fun h => h.2.2 (hnumbered.input h.1 h.2.1)]

/-- The same, from the lines of the client on. -/
theorem converse_admitted {pc : Context} {ls : List (List UInt8)} {req : Request} {n : Int}
    (h : Admitted pc ls req n) : converse pc ls = dispatch pc req n := by
  obtain ⟨hasked, hheaders, rfl, hcred, hnumbered⟩ := h
  unfold converse headers
  simp only [hasked, hheaders, Option.bind_eq_bind, Option.bind_some, Option.map_some]
  exact answer_admitted hcred hnumbered

/-- **A conversation ends with errors, or with a request that is admitted.** -/
theorem converse_cases (pc : Context) (ls : List (List UInt8)) :
    OnlyErrors (converse pc ls) ∨ ∃ req n, Admitted pc ls req n := by
  cases ls with
  | nil => exact .inl onlyErrors_nothing
  | cons line ls =>
    obtain ⟨a, hasked, ha⟩ := determine_cases (cstr line)
    cases a with
    | refused which message =>
      left
      unfold converse
      simp only [hasked, Option.bind_eq_bind, Option.bind_some]
      exact onlyErrors_refused ha
    | request req query_suffixed =>
      cases hheaders : headerLines ls with
      | none =>
        left
        unfold converse headers
        simp only [hasked, hheaders, Option.bind_eq_bind, Option.bind_some, Option.map_none]
        exact onlyErrors_nothing
      | some hs =>
        rcases answer_cases pc (hs.foldl heard req) query_suffixed
          (if query_suffixed = true then inputNumber (cstr line) else 0) with herror | hok
        · left
          unfold converse headers
          simp only [hasked, hheaders, Option.bind_eq_bind, Option.bind_some, Option.map_some]
          exact herror
        · exact .inr ⟨_, _, .mk hasked hheaders rfl hok.1 hok.2⟩

/-! ## Credentials -/

/-- The request line presents no credentials. -/
theorem initRequest_credentials {req : Request} {query_suffixed : Bool}
    (h : Understood (.request req query_suffixed)) : req.credentials = none := by
  cases h with
  | numbered => rfl
  | program => rfl
  | take => rfl
  | command => rfl
  | file => rfl
  | cgi => rfl
  | query => rfl

/-- The same server with no credentials configured. -/
def Context.unguarded (pc : Context) : Context :=
  { pc with conf := { pc.conf with credentials := none } }

/-- Credentials are compared before anything else is done. -/
theorem answer_guarded {pc : Context} {cred : List UInt8} (hcred : pc.conf.credentials = some cred)
    (req : Request) (query_suffixed : Bool) (n : Int) :
    if req.credentials = some cred then
      answer pc req query_suffixed n = answer pc.unguarded req query_suffixed n
    else OnlyErrors (answer pc req query_suffixed n) := by
  have hsome : pc.conf.credentials ≠ none := by
    rw [hcred]
    exact Option.some_ne_none cred
  split
  next h =>
    have hdispatch : dispatch pc req n = dispatch pc.unguarded req n := rfl
    have hsame : ¬(pc.conf.credentials ≠ none ∧ req.credentials ≠ pc.conf.credentials) :=
      fun hne => hne.2 (h.trans hcred.symm)
    have hnone : ¬(pc.unguarded.conf.credentials ≠ none ∧
        req.credentials ≠ pc.unguarded.conf.credentials) := fun hne => hne.1 rfl
    unfold answer
    rw [if_neg hsame, if_neg hnone, hdispatch]
    rfl
  next h =>
    unfold answer
    rw [if_pos ⟨hsome, fun heq => h (heq.trans hcred)⟩]
    exact onlyErrors_sendError (by decide)

/-- **A client that does not present the credentials gets nothing but an error**, whatever else
it sends; one that does is answered as if none were asked for. -/
theorem guarded {pc : Context} {cred : List UInt8} (hcred : pc.conf.credentials = some cred)
    (socket : List Poll) :
    if presented (sentLines socket) = some cred then
      clientThread pc socket = clientThread pc.unguarded socket
    else OnlyErrors (clientThread pc socket) := by
  rw [clientThread_eq, clientThread_eq]
  cases sentLines socket with
  | nil =>
    rw [presented, if_neg (Option.some_ne_none cred).symm]
    exact onlyErrors_nothing
  | cons line ls =>
    obtain ⟨a, hasked, ha⟩ := determine_cases (cstr line)
    unfold converse headers presented
    simp only [hasked, Option.bind_eq_bind, Option.bind_some]
    cases a with
    | refused which message =>
      split
      next => rfl
      next => exact onlyErrors_refused ha
    | request req query_suffixed =>
      cases headerLines ls with
      | none =>
        rw [Option.bind_none, if_neg (Option.some_ne_none cred).symm]
        exact onlyErrors_nothing
      | some hs =>
        -- the credentials of the request are those of the last line that has some
        have hpresented := foldl_heard_credentials hs req
        rw [initRequest_credentials ha, Option.or_none] at hpresented
        simp only [Option.bind_some, Option.map_some, ← hpresented]
        exact answer_guarded hcred _ query_suffixed _

/-- A description of the program is asked for without the credentials. -/
theorem guarded_stranger :
    OnlyErrors (clientThread (oneCamera (some (literal "u:p")))
      [.data (literal "GET /program.json\r\n\r\n") (by decide) (by decide)]) := by
  have hconf : (oneCamera (some (literal "u:p"))).conf.credentials = some (literal "u:p") := rfl
  have h := guarded hconf
    [.data (literal "GET /program.json\r\n\r\n") (by decide) (by decide)]
  rwa [if_neg (by decide +kernel)] at h

/-! ## What is served -/

/-- What the server may do for a client. -/
inductive Proper (pc : Context) : Reply → Prop where
  | error (which : Nat) (message : List UInt8) : Proper pc (.error which message)
  | snapshot {n : Int} (hn : 0 ≤ n ∧ n < pc.pglobal.inputs.length) : Proper pc (.snapshot n)
  | stream {n : Int} (hn : 0 ≤ n ∧ n < pc.pglobal.inputs.length) : Proper pc (.stream n)
  | inputJson {n : Int} (hn : 0 ≤ n ∧ n < pc.pglobal.inputs.length) : Proper pc (.inputJson n)
  | outputJson {n : Int} (hn : 0 ≤ n ∧ n < pc.pglobal.outputs.length) : Proper pc (.outputJson n)
  | programJson : Proper pc .programJson
  | input {n control_id group value : Int} {value_str : Option (List UInt8)}
    (henabled : pc.conf.nocommands = false) (hn : 0 ≤ n ∧ n < pc.pglobal.inputs.length) :
    Proper pc (.cmd 0 n control_id group value value_str)
  | output {n control_id group value : Int} {value_str : Option (List UInt8)}
    (henabled : pc.conf.nocommands = false) (hn : 0 ≤ n ∧ n < pc.pglobal.outputs.length) :
    Proper pc (.cmd 1 n control_id group value value_str)
  | text (henabled : pc.conf.nocommands = false) (s : List UInt8) : Proper pc (.text s)
  | file {www_folder stem dot_extension mimetype : List UInt8}
    (hfolder : pc.conf.www_folder = some www_folder)
    (hname : ∀ c ∈ stem ++ dot_extension, c ∈ fileChars)
    (hmime : (dot_extension, mimetype) ∈ mimetypes) :
    Proper pc (.file (filePath www_folder (stem ++ dot_extension)) mimetype)
  | script {www_folder name : List UInt8} (hfolder : pc.conf.www_folder = some www_folder)
    (hname : ∀ c ∈ name, c ∈ fileChars) :
    Proper pc (.script (filePath www_folder name)
      (scriptCommand pc.conf.port name (literal " ") (filePath www_folder name)))

/-- All that is done is proper. Where the thread leaves its memory, nothing is said. -/
def AllProper (pc : Context) (r : Option (List Reply)) : Prop :=
  ∀ rs, r = some rs → ∀ reply ∈ rs, Proper pc reply

section Proper

variable {pc : Context}

/-- Errors may be sent to anyone. -/
theorem OnlyErrors.proper {r : Option (List Reply)} (h : OnlyErrors r) : AllProper pc r := by
  obtain ⟨rs, rfl, herrors⟩ := h
  rintro _ ⟨⟩ reply hreply
  obtain ⟨which, message, rfl⟩ := herrors reply hreply
  exact .error which message

/-- One proper answer. -/
theorem proper_one {reply : Reply} (h : Proper pc reply) : AllProper pc (some [reply]) := by
  rintro _ ⟨⟩ r hr
  rw [List.mem_singleton.mp hr]
  exact h

/-- No directory is a part of a name. -/
theorem slash_notMem_fileChars : (47 : UInt8) ∉ fileChars := by decide +kernel

/-- The path of a file that fits the buffer is not cut. -/
theorem filePath_eq (www_folder name : List UInt8) :
    filePath www_folder name = (www_folder ++ name).take (BUFFER_SIZE - 1) := by
  unfold filePath
  dsimp only
  rw [List.take_append, Nat.sub_right_comm, List.length_take]
  congr 2
  omega

/-- A name of accepted characters has no slash, so the file is in the folder. -/
theorem proper_sendFile {www_folder parameter : List UInt8}
    (hfolder : pc.conf.www_folder = some www_folder) (hname : ∀ c ∈ parameter, c ∈ fileChars) :
    AllProper pc (sendFile pc www_folder parameter) := by
  have hdefault : ∀ c ∈ literal "index.html", c ∈ fileChars :=
    List.all_iff_forall_prop.mp (by decide +kernel)
  -- an empty name stands for the index
  have hname' : ∀ c ∈ if parameter.length = 0 then literal "index.html" else parameter,
      c ∈ fileChars := by
    split
    next => exact hdefault
    next => exact hname
  unfold sendFile
  dsimp only
  generalize (if parameter.length = 0 then literal "index.html" else parameter) = name at hname' ⊢
  split
  next => exact (onlyErrors_sendError (by decide)).proper
  next =>
    split
    next => exact (onlyErrors_sendError (by decide)).proper
    next m hfind =>
      have hmem : m ∈ mimetypes := List.mem_of_find?_eq_some hfind
      have hext : m.1 = name.drop (lastDotLoop name (name.length + 1) (strchr name 46) 0) := by
        simpa using List.find?_some hfind
      split
      next =>
        intro rs hrs reply hreply
        obtain ⟨_, -, rfl⟩ := Option.map_eq_some_iff.mp hrs
        rw [List.mem_singleton.mp hreply]
        -- the name is cut at its last dot
        have hsplit := List.take_append_drop
          (lastDotLoop name (name.length + 1) (strchr name 46) 0) name
        rw [← hext] at hsplit
        rw [← hsplit] at hname' ⊢
        exact .file hfolder hname' hmem
      next => exact (onlyErrors_sendError (by decide)).proper

/-- A query is copied without a `NUL`, and has none in it. -/
theorem text_query {query : List UInt8} (hquery : ∀ c ∈ query, c ∈ queryChars) :
    text query = none := by
  have hzero : ∀ c ∈ queryChars, c ≠ 0 := List.all_iff_forall_prop.mp (by decide +kernel)
  exact text_eq_none fun c hc => hzero c (hquery c hc)

/-- The query of a script is a blank, or it is no text. -/
theorem proper_executeCgi {name query_string : List UInt8}
    (hquery : text query_string = some (literal " ") ∧ (∀ c ∈ name, c ∈ fileChars) ∨
      text query_string = none) :
    AllProper pc (executeCgi pc name query_string) := by
  unfold executeCgi
  cases hfolder : pc.conf.www_folder with
  | none => exact fun rs hrs => nomatch hrs
  | some www_folder =>
    simp only [Option.bind_eq_bind, Option.bind_some]
    split
    next =>
      rcases hquery with ⟨hquery, hname⟩ | hquery
      · rw [hquery, Option.bind_some]
        unfold sprintf
        split
        next =>
          rw [Option.bind_some]
          split
          next => exact proper_one (.script hfolder hname)
          next => exact (onlyErrors_sendError (by decide)).proper
        next => exact fun rs hrs => nomatch hrs
      · -- a query without an end is a fault
        rw [hquery]
        exact fun rs hrs => nomatch hrs
    next => exact (onlyErrors_sendError (by decide)).proper

/-- A call of `cmd` is a call of a plugin of the table. -/
theorem callCmd_cases {dest plugin_no command_id group ivalue : Int} {plugins : List Plugin}
    {value : Option (List UInt8)} {r : Int32 × List Reply}
    (h : callCmd dest plugins plugin_no command_id group ivalue value = some r) :
    r.2 = [] ∨ r.2 = [.cmd dest plugin_no command_id group ivalue value] ∧
      0 ≤ plugin_no ∧ plugin_no < plugins.length := by
  unfold callCmd at h
  split at h
  next hlt =>
    split at h
    next => cases h
    next hnonneg =>
      right
      cases hplugin : plugins[plugin_no.toNat]? with
      | none =>
        rw [hplugin] at h
        cases h
      | some plugin =>
        rw [hplugin, Option.bind_eq_bind, Option.bind_some] at h
        obtain ⟨cmd, -, hr⟩ := Option.bind_eq_some_iff.mp h
        cases hr
        exact ⟨rfl, Int.not_lt.mp hnonneg, hlt⟩
  next =>
    cases h
    exact .inl rfl

/-- `cmd` is called with a number that has been checked against its table, -/
theorem proper_callDest (henabled : pc.conf.nocommands = false)
    {dest plugin_no command_id group ivalue : Int} {value : Option (List UInt8)}
    {r : Int32 × List Reply}
    (h : callDest pc dest plugin_no command_id group ivalue value = some r) :
    ∀ reply ∈ r.2, Proper pc reply := by
  have hnone : ∀ reply ∈ ([] : List Reply), Proper pc reply := fun _ h => absurd h List.not_mem_nil
  unfold callDest at h
  split at h
  next hdest =>
    rcases callCmd_cases h with hr | ⟨hr, hn⟩
    · rw [hr]
      exact hnone
    · rw [hr, hdest]
      exact fun _ hreply => List.mem_singleton.mp hreply ▸ .input henabled hn
  next =>
    split at h
    next hdest =>
      rcases callCmd_cases h with hr | ⟨hr, hn⟩
      · rw [hr]
        exact hnone
      · rw [hr, hdest]
        exact fun _ hreply => List.mem_singleton.mp hreply ▸ .output henabled hn
    next =>
      obtain ⟨⟩ := h
      exact hnone

/-- whatever the parameters of the command are. -/
theorem proper_command (henabled : pc.conf.nocommands = false) (parameter : List UInt8) :
    AllProper pc (command pc parameter) := by
  unfold command
  split
  next => exact (onlyErrors_sendError (by decide)).proper
  next =>
    split
    next => exact (onlyErrors_sendError (by decide)).proper
    next id _ =>
      intro rs hrs reply hreply
      obtain ⟨r, hcall, hrest⟩ := Option.bind_eq_some_iff.mp hrs
      obtain ⟨buffer, -, hbuffer⟩ := Option.bind_eq_some_iff.mp hrest
      obtain ⟨⟩ := hbuffer
      rcases List.mem_append.mp hreply with hmem | hmem
      · exact proper_callDest henabled hcall reply hmem
      · exact List.mem_singleton.mp hmem ▸ .text henabled buffer

/-- The value of a variable is a piece of the parameter. -/
theorem getVariable_ne_zero {parameter name value : List UInt8}
    (hparameter : ∀ c ∈ parameter, c ≠ 0) (h : getVariable parameter name = some value) :
    ∀ c ∈ value, c ≠ 0 := by
  obtain ⟨u, hu, rfl⟩ := Option.map_eq_some_iff.mp h
  exact fun c hc => hparameter c ((suffix_of_strstr hu).mem (List.mem_of_mem_drop hc))

/-- The name of a file is handed over without a `NUL`. -/
theorem text_takenName {parameter filenamearg : List UInt8} (hparameter : ∀ c ∈ parameter, c ≠ 0)
    (h : takenName parameter = some filenamearg) : text filenamearg = none := by
  obtain ⟨filename, hfilename, rfl⟩ := Option.map_eq_some_iff.mp h
  have hzero := getVariable_ne_zero hparameter hfilename
  split
  next => exact text_eq_none hzero
  next => exact text_eq_none fun c hc => hzero c (List.mem_of_mem_take hc)

/-- The name that the file plugin is handed has no `'\0'` behind it, so the call is a fault. -/
theorem takeFile_eq {i : Nat} {parameter : List UInt8} (hparameter : ∀ c ∈ parameter, c ≠ 0) :
    takeFile pc i parameter =
      if takenName parameter = none then
        some (0, [.error 404
          (literal "The &filename= must present for the take command in the URL")])
      else none := by
  unfold takeFile
  cases htaken : takenName parameter with
  | none =>
    dsimp only
    rw [if_pos rfl, sendError_eq]
    rfl
  | some filenamearg =>
    dsimp only
    rw [if_neg (Option.some_ne_none _), text_takenName hparameter htaken]
    rfl

/-- Without a name the request is answered with an error. -/
theorem proper_take {n : Int} (hn : 0 ≤ n ∧ n < pc.pglobal.inputs.length)
    {parameter : List UInt8} (hparameter : ∀ c ∈ parameter, c ≠ 0) :
    AllProper pc (take pc parameter n) := by
  unfold take
  split
  next => exact (onlyErrors_sendError (by decide)).proper
  next i hi =>
    rw [takeFile_eq hparameter]
    split
    next =>
      intro rs hrs reply hreply
      obtain rfl := Option.some.inj hrs
      rcases List.mem_append.mp hreply with hmem | hmem
      · exact List.mem_singleton.mp hmem ▸ .error _ _
      · exact List.mem_singleton.mp hmem ▸ .snapshot hn
    next => exact fun rs hrs => nomatch hrs

/-- The number in a request line is a digit, or 0. -/
theorem inputNumber_nonneg (buffer : List UInt8) : 0 ≤ inputNumber buffer := by
  have hall : ∀ c : Fin 256, 0 ≤ strtol [UInt8.ofNat c] := by decide +kernel
  unfold inputNumber
  split
  next sch _ =>
    rcases sch.drop 1 with _ | ⟨c, s⟩
    · decide
    · have hc := hall ⟨c.toNat, c.toNat_lt⟩
      rw [UInt8.ofNat_toNat] at hc
      exact hc
  next => exact Int.le_refl 0

/-- What can be asked, is done properly. -/
theorem proper_dispatch {req asked : Request} {query_suffixed : Bool} {n : Int}
    (hasked : Understood (.request asked query_suffixed))
    (hreq : req.type = asked.type ∧ req.parameter = asked.parameter ∧
      req.query_string = asked.query_string)
    (hn : 0 ≤ n) (hnumbered : Numbered pc req query_suffixed n) :
    AllProper pc (dispatch pc req n) := by
  obtain ⟨htype, hparameter, hquery_string⟩ := hreq
  obtain ⟨hinput, houtput⟩ := hnumbered
  unfold dispatch
  rw [htype] at hinput houtput ⊢
  rw [hparameter, hquery_string]
  cases hasked with
  | numbered hnumber =>
    rename_i type
    cases type with
    | snapshot => exact proper_one (.snapshot ⟨hn, hinput rfl (by decide)⟩)
    | stream => exact proper_one (.stream ⟨hn, hinput rfl (by decide)⟩)
    | inputJson => exact proper_one (.inputJson ⟨hn, hinput rfl (by decide)⟩)
    | outputJson => exact proper_one (.outputJson ⟨hn, houtput rfl rfl⟩)
    | _ => cases hnumber
  | program => exact proper_one .programJson
  | take hs => exact proper_take ⟨hn, hinput rfl fun h => Answer.noConfusion h⟩ hs
  | command s =>
    show AllProper pc (if pc.conf.nocommands = true then _ else command pc s)
    split
    next => exact (onlyErrors_sendError (by decide)).proper
    next henabled => exact proper_command (Bool.eq_false_of_not_eq_true henabled) s
  | file hname =>
    cases hfolder : pc.conf.www_folder with
    | none => exact (onlyErrors_sendError (by decide)).proper
    | some www_folder => exact proper_sendFile hfolder hname
  | cgi hname =>
    exact proper_executeCgi
      (.inl ⟨text_append (List.all_iff_forall_prop.mp (by decide)) [], hname⟩)
  | query hquery => exact proper_executeCgi (.inr (text_query hquery))

end Proper

/-- **Whatever bytes a client sends, all that is done for it is proper**: pictures and
descriptions of plugins that are there, commands if they are enabled, files of the folder, and
scripts whose command has nothing of the client but the name of the script. Where the thread
leaves its memory nothing is said. -/
theorem proper_clientThread (pc : Context) (socket : List Poll) :
    AllProper pc (clientThread pc socket) := by
  rw [clientThread_eq]
  rcases converse_cases pc (sentLines socket) with herrors | ⟨req, n, hadmitted⟩
  · -- a client that is not admitted gets errors
    exact herrors.proper
  · rw [converse_admitted hadmitted]
    generalize sentLines socket = ls at hadmitted
    cases hadmitted with
    | mk hasked hheaders hn hcred hnumbered =>
      rename_i line ls hs req query_suffixed
      obtain ⟨a, ha, hunderstood⟩ := determine_cases (cstr line)
      obtain rfl := Option.some.inj (hasked.symm.trans ha)
      refine proper_dispatch hunderstood (foldl_heard_rest hs req) ?_ hnumbered
      rw [hn]
      split
      next => exact inputNumber_nonneg _
      next => exact Int.le_refl 0

end Httpd

end ProjZ
