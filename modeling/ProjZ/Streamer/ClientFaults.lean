import ProjZ.Streamer.Serving

/-!
# When a client thread leaves its memory

`client_thread` and what it calls keep to their buffers, and call what is there, except for
requests of four kinds (`clientThread_none_iff`): a command for a plugin that is not in the table
or takes no commands, a picture that is to be written to a file, a script that is asked for
without a folder, and one that is asked for with a query. The second and the last have a text
that is copied without its `NUL` and then read.
-/

namespace ProjZ

namespace Httpd

open Ascii CString Lines

section Parts

variable {pc : Context}

/-- A number below the end of the table that is no plugin's, or of a plugin without `cmd`. -/
def Stray (plugins : List Plugin) (n : Int) : Prop :=
  n < plugins.length ∧
    (n < 0 ∨ ∃ plugin, plugins[n.toNat]? = some plugin ∧ plugin.cmd = none)

/-- The call goes wrong exactly for such a number. -/
theorem callCmd_none_iff {dest plugin_no command_id group ivalue : Int} {plugins : List Plugin}
    {value : Option (List UInt8)} :
    callCmd dest plugins plugin_no command_id group ivalue value = none ↔
      Stray plugins plugin_no := by
  unfold callCmd Stray
  by_cases hlt : plugin_no < plugins.length
  · rw [if_pos hlt]
    by_cases hneg : plugin_no < 0
    · rw [if_pos hneg]
      exact ⟨fun _ => ⟨hlt, .inl hneg⟩, fun _ => rfl⟩
    · have hindex : plugin_no.toNat < plugins.length := by omega
      rw [if_neg hneg, List.getElem?_eq_getElem hindex]
      simp only [Option.bind_eq_bind, Option.bind_some, hlt, hneg, true_and, false_or,
        Option.some.injEq, exists_eq_left']
      cases plugins[plugin_no.toNat].cmd with
      | none => exact ⟨fun _ => rfl, fun _ => rfl⟩
      | some cmd =>
        rw [Option.bind_some]
        exact ⟨fun h => absurd h (Option.some_ne_none _),
          fun h => absurd h (Option.some_ne_none _)⟩
  · rw [if_neg hlt]
    exact ⟨fun h => absurd h (Option.some_ne_none _), fun h => absurd h.1 hlt⟩

/-! ## Commands -/

/-- A command for a plugin that is not there. -/
structure StrayCommand (pc : Context) (parameter : List UInt8) : Prop where
  length : 0 < parameter.length ∧ parameter.length < 255
  id : getVariable parameter (literal "id=") ≠ none
  plugin :
    getNumber parameter (literal "dest=") = 0 ∧
      Stray pc.pglobal.inputs (getNumber parameter (literal "plugin=")) ∨
    getNumber parameter (literal "dest=") = 1 ∧
      Stray pc.pglobal.outputs (getNumber parameter (literal "plugin="))

/-- A number that is too large is refused; one that is negative is not. -/
theorem callDest_none_iff (pc : Context) (dest plugin_no command_id group ivalue : Int)
    (value : Option (List UInt8)) :
    callDest pc dest plugin_no command_id group ivalue value = none ↔
      dest = 0 ∧ Stray pc.pglobal.inputs plugin_no ∨
      dest = 1 ∧ Stray pc.pglobal.outputs plugin_no := by
  unfold callDest
  by_cases hinput : dest = 0
  · rw [if_pos hinput, callCmd_none_iff]
    simp only [hinput, true_and, zero_ne_one, false_and, or_false]
  · rw [if_neg hinput]
    by_cases houtput : dest = 1
    · rw [if_pos houtput, callCmd_none_iff]
      simp only [houtput, true_and, one_ne_zero, false_and, false_or]
    · rw [if_neg houtput]
      simp only [hinput, houtput, false_and, or_false, reduceCtorEq]

/-- The answer to a command fits its buffer. -/
theorem length_commandText_lt {command : List UInt8} (h : command.length < 255) (res : Int32) :
    (commandText command res).length < BUFFER_SIZE := by
  have hlo := res.le_toInt
  have hhi := res.toInt_lt
  have hres : (Decimal.printfInt res.toInt).length ≤ 9 + 2 :=
    Decimal.length_printfInt_le (by omega)
  have hclosed : (literal "HTTP/1.0 200 OK\r\n" ++ literal "Content-type: text/plain\r\n" ++
      STD_HEADER ++ literal "\r\n").length ≤ 300 := by decide +kernel
  have htext : (command ++ literal ": " ++ Decimal.printfInt res.toInt).length =
      command.length + 2 + (Decimal.printfInt res.toInt).length := by
    rw [List.length_append, List.length_append]
    rfl
  unfold commandText
  rw [List.length_append, htext]
  show _ < 1024
  omega

/-- The text behind a variable is a part of the parameter. -/
theorem length_getVariable_le {parameter name t : List UInt8}
    (h : getVariable parameter name = some t) : t.length ≤ parameter.length := by
  obtain ⟨u, hu, rfl⟩ := Option.map_eq_some_iff.mp h
  rw [List.length_drop]
  exact Nat.le_trans (Nat.sub_le _ _) (suffix_of_strstr hu).length_le

/-- A text that fits is printed. -/
theorem sprintf_eq {size : Nat} {s : List UInt8} (h : s.length < size) :
    sprintf size s = some s := if_pos h

/-- Of `command` only the call of a plugin can go wrong. -/
theorem command_none_iff {parameter : List UInt8} :
    command pc parameter = none ↔ StrayCommand pc parameter := by
  unfold command
  by_cases hlen : 255 ≤ parameter.length ∨ parameter.length = 0
  · rw [if_pos hlen, sendError_eq]
    refine ⟨fun h => absurd h (Option.some_ne_none _), fun h => ?_⟩
    have hlength := h.length
    omega
  · rw [if_neg hlen]
    cases hid : getVariable parameter (literal "id=") with
    | none =>
      dsimp only
      rw [sendError_eq]
      exact ⟨fun h => absurd h (Option.some_ne_none _), fun h => absurd hid h.id⟩
    | some id =>
      have hidlen := length_getVariable_le hid
      -- the answer fits, whatever number the plugin returns
      have hfits : ∀ (k : Nat) (res : Int32),
          sprintf BUFFER_SIZE (commandText (id.take k) res) =
            some (commandText (id.take k) res) := by
        intro k res
        refine sprintf_eq (length_commandText_lt ?_ res)
        rw [List.length_take]
        omega
      -- so what is left is the call of the plugin
      have hcall := callDest_none_iff pc (getNumber parameter (literal "dest="))
        (getNumber parameter (literal "plugin="))
        (number (id.take (strspn id (letters ++ literal "_1234567890"))))
        (getNumber parameter (literal "group=")) (getNumber parameter (literal "value="))
        (getVariable parameter (literal "plugin="))
      have hid' : getVariable parameter (literal "id=") ≠ none := by
        rw [hid]
        exact Option.some_ne_none id
      dsimp only
      constructor
      · intro h
        refine ⟨by omega, hid', hcall.mp ?_⟩
        cases hr : callDest pc _ _ _ _ _ _ with
        | none => rfl
        | some r =>
          simp only [hr, hfits, Option.bind_eq_bind, Option.bind_some, reduceCtorEq] at h
      · intro h
        simp only [hcall.mpr h.plugin, Option.bind_eq_bind, Option.bind_none]

/-! ## Pictures, files and scripts -/

/-- A picture that is to be written to a file, with a plugin that would do so. -/
structure NamedTake (pc : Context) (parameter : List UInt8) : Prop where
  name : takenName parameter ≠ none
  plugin : (pc.pglobal.outputs.findIdx? isFilePlugin).isSome = true

/-- Every name of a file is read behind its end. -/
theorem take_none_iff {parameter : List UInt8} (hparameter : ∀ c ∈ parameter, c ≠ 0) {n : Int} :
    take pc parameter n = none ↔ NamedTake pc parameter := by
  unfold take
  cases hplugin : pc.pglobal.outputs.findIdx? isFilePlugin with
  | none =>
    dsimp only
    rw [sendError_eq]
    refine ⟨fun h => absurd h (Option.some_ne_none _), fun h => ?_⟩
    have hsome := h.plugin
    rw [hplugin] at hsome
    cases hsome
  | some i =>
    dsimp only
    rw [takeFile_eq hparameter]
    by_cases htaken : takenName parameter = none
    · rw [if_pos htaken]
      exact ⟨fun h => absurd h (Option.some_ne_none _), fun h => absurd htaken h.name⟩
    · rw [if_neg htaken]
      exact ⟨fun _ => ⟨htaken, by rw [hplugin]; rfl⟩, fun _ => rfl⟩

/-- `send_file` stays inside its buffers. -/
theorem sendFile_ne_none (www_folder parameter : List UInt8) :
    sendFile pc www_folder parameter ≠ none := by
  have herror : ∀ (which : Nat) (message : List UInt8), message.length ≤ 100 →
      sendError which message ≠ none := by
    intro which message h
    rw [sendError_eq h]
    exact Option.some_ne_none _
  -- the header is a matter of the table
  have hfits : ∀ m ∈ mimetypes, (fileHeader m.2).length < BUFFER_SIZE :=
    List.all_iff_forall_prop.mp (by decide +kernel)
  unfold sendFile
  dsimp only
  generalize (if parameter.length = 0 then literal "index.html" else parameter) = name
  split
  next => exact herror _ _ (by decide)
  next =>
    split
    next => exact herror _ _ (by decide)
    next m hfind =>
      split
      next =>
        rw [sprintf_eq (hfits m (List.mem_of_find?_eq_some hfind))]
        exact Option.some_ne_none _
      next => exact herror _ _ (by decide)

/-- How many values a format asks for. -/
def conversions : List UInt8 → Nat
  | 37 :: _ :: fmt => conversions fmt + 1
  | _ :: fmt => conversions fmt
  | [] => 0

/-- Every conversion is replaced by its value. -/
theorem length_format {fmt : List UInt8} {values : List (List UInt8)}
    (h : conversions fmt = values.length) :
    (format fmt values).length + 2 * values.length =
      fmt.length + (values.map List.length).sum := by
  fun_induction conversions fmt generalizing values with
  | case1 d fmt ih =>
    -- a `%` and the character behind it give way to a value
    cases values with
    | nil => cases h
    | cons value values =>
      have hrest := ih (Nat.succ.inj h)
      simp only [format, List.length_append, List.length_cons, List.map_cons, List.sum_cons]
      omega
  | case2 c fmt hne ih =>
    have hformat : format (c :: fmt) values = c :: format fmt values :=
      format.eq_2 values c fmt fun d fmt' _ _ _ hc hfmt => hne d fmt' hc hfmt
    have hrest := ih h
    rw [hformat, List.length_cons, List.length_cons]
    omega
  | case3 =>
    obtain rfl := List.eq_nil_of_length_eq_zero h.symm
    rfl

/-- A command with a short query fits the memory that is allocated for it, whatever the port. -/
theorem length_scriptCommand_lt (port : Int32) (parameter path : List UInt8)
    {query_string : List UInt8} (h : query_string.length ≤ 200) :
    (scriptCommand port parameter query_string path).length <
      path.length + enviroment.length + parameter.length + 256 := by
  have hlo := port.le_toInt
  have hhi := port.toInt_lt
  -- the port is an `int`, with a sign perhaps
  have hport : (Decimal.printfInt port.toInt).length ≤ 9 + 2 :=
    Decimal.length_printfInt_le (by omega)
  have hfour : conversions enviroment = 4 := by decide +kernel
  have hlen : (scriptCommand port parameter query_string path).length + 2 * 4 =
      enviroment.length + ((Decimal.printfInt port.toInt).length +
        (parameter.length + (query_string.length + (path.length + 0)))) :=
    @length_format enviroment [Decimal.printfInt port.toInt, parameter, query_string, path] hfour
  omega

/-- A script without a query goes wrong only without a folder. -/
theorem executeCgi_none_iff {parameter query_string query : List UInt8}
    (hquery : text query_string = some query) (hlen : query.length ≤ 200) :
    executeCgi pc parameter query_string = none ↔ pc.conf.www_folder = none := by
  unfold executeCgi
  cases hfolder : pc.conf.www_folder with
  | none => exact ⟨fun _ => rfl, fun _ => rfl⟩
  | some www_folder =>
    have hfits := length_scriptCommand_lt pc.conf.port parameter (filePath www_folder parameter)
      hlen
    simp only [Option.bind_eq_bind, Option.bind_some, hquery, sprintf_eq hfits]
    refine ⟨fun h => ?_, fun h => absurd h (Option.some_ne_none _)⟩
    rw [sendError_eq, sendError_eq] at h
    repeat' split at h
    all_goals cases h

/-- One with a query goes wrong as soon as the query is read. -/
theorem executeCgi_query_none_iff {parameter query : List UInt8} (hquery : text query = none) :
    executeCgi pc parameter query = none ↔
      ∀ www_folder, pc.conf.www_folder = some www_folder →
        pc.opens (filePath www_folder parameter) = true := by
  unfold executeCgi
  cases pc.conf.www_folder with
  | none => exact ⟨fun _ _ h => absurd h.symm (Option.some_ne_none _), fun _ => rfl⟩
  | some www_folder =>
    simp only [Option.bind_eq_bind, Option.bind_some, Option.some.injEq, forall_eq']
    by_cases hopens : pc.opens (filePath www_folder parameter) = true
    · rw [if_pos hopens, hquery]
      exact ⟨fun _ => hopens, fun _ => rfl⟩
    · rw [if_neg hopens, sendError_eq]
      exact ⟨fun h => absurd h (Option.some_ne_none _), fun h => absurd h hopens⟩

end Parts

/-! ## The whole thread -/

/-- The requests that are not answered: of four kinds. -/
inductive Faulty (pc : Context) (req : Request) : Prop where
  | command {s : List UInt8} (htype : req.type = .command) (hparameter : req.parameter = some s)
    (henabled : pc.conf.nocommands = false) (h : StrayCommand pc s)
  | take {s : List UInt8} (htype : req.type = .take) (hparameter : req.parameter = some s)
    (h : NamedTake pc s)
  | folder (htype : req.type = .cgi) (h : pc.conf.www_folder = none)
  | query {www_folder name query : List UInt8} (htype : req.type = .cgi)
    (hparameter : req.parameter = some name) (hquery : req.query_string = some query)
    (h : 0 ∉ query) (hfolder : pc.conf.www_folder = some www_folder)
    (hopens : pc.opens (filePath www_folder name) = true)

/-- A request of one of the four kinds goes wrong, -/
theorem Faulty.dispatch {pc : Context} {req : Request} (h : Faulty pc req)
    (hzero : req.type = .take → ∀ s, req.parameter = some s → ∀ c ∈ s, c ≠ 0) (n : Int) :
    dispatch pc req n = none := by
  unfold Httpd.dispatch
  cases h with
  | command htype hparameter henabled h =>
    rw [htype, hparameter]
    show (if pc.conf.nocommands = true then _ else Httpd.command pc _) = none
    rw [henabled, if_neg Bool.false_ne_true]
    exact command_none_iff.mpr h
  | take htype hparameter h =>
    have hs := hzero htype _ hparameter
    rw [htype, hparameter]
    exact (take_none_iff hs).mpr h
  | folder htype h =>
    rw [htype]
    cases req.parameter with
    | none => rfl
    | some name =>
      cases req.query_string with
      | none => rfl
      | some query =>
        show executeCgi pc name query = none
        unfold executeCgi
        rw [h]
        rfl
  | query htype hparameter hquery h hfolder hopens =>
    rw [htype, hparameter, hquery]
    refine (executeCgi_query_none_iff (if_neg h)).mpr fun www_folder hwww => ?_
    obtain rfl := Option.some.inj (hfolder.symm.trans hwww)
    exact hopens

/-- and no other does. -/
theorem dispatch_none_iff {pc : Context} {req asked : Request} {query_suffixed : Bool} {n : Int}
    (hasked : Understood (.request asked query_suffixed))
    (hreq : req.type = asked.type ∧ req.parameter = asked.parameter ∧
      req.query_string = asked.query_string) :
    dispatch pc req n = none ↔ Faulty pc req := by
  obtain ⟨htype, hparameter, hquery_string⟩ := hreq
  constructor
  · intro h
    unfold dispatch at h
    rw [htype, hparameter, hquery_string] at h
    cases hasked with
    | numbered hnumber =>
      -- no picture and no description is a fault
      rename_i type
      cases type with
      | snapshot => cases h
      | stream => cases h
      | inputJson => cases h
      | outputJson => cases h
      | _ => cases hnumber
    | program => cases h
    | take hs => exact .take htype hparameter ((take_none_iff hs).mp h)
    | command s =>
      change (if pc.conf.nocommands = true then _ else command pc s) = none at h
      split at h
      next =>
        rw [sendError_eq] at h
        cases h
      next henabled =>
        exact .command htype hparameter (Bool.eq_false_of_not_eq_true henabled)
          (command_none_iff.mp h)
    | file hname =>
      rename_i name
      cases hfolder : pc.conf.www_folder with
      | none =>
        rw [hfolder] at h
        change sendError 501 _ = none at h
        rw [sendError_eq] at h
        cases h
      | some www_folder =>
        rw [hfolder] at h
        exact absurd h (sendFile_ne_none www_folder name)
    | cgi hname =>
      have hblank : text (literal " " ++ [0]) = some (literal " ") :=
        text_append (List.all_iff_forall_prop.mp (by decide)) []
      exact .folder htype ((executeCgi_none_iff hblank (by decide)).mp h)
    | query hquery =>
      -- the query is read once the file is open
      have hopens := (executeCgi_query_none_iff (text_query hquery)).mp h
      cases hfolder : pc.conf.www_folder with
      | none => exact .folder htype hfolder
      | some www_folder =>
        have hzero : (0 : UInt8) ∉ queryChars := by decide +kernel
        exact .query htype hparameter hquery_string (fun hmem => hzero (hquery 0 hmem)) hfolder
          (hopens www_folder hfolder)
  · intro h
    refine h.dispatch (fun htake s hs => ?_) n
    rw [htype] at htake
    rw [hparameter] at hs
    cases hasked with
    | take hs' =>
      obtain rfl := Option.some.inj hs
      exact hs'
    | numbered hnumber =>
      rw [show (requestOf _ none none).parameter = none from rfl] at hs
      cases hs
    | program => cases htake
    | command s => cases htake
    | file hname => cases htake
    | cgi hname => cases htake
    | query hquery => cases htake

end Httpd

end ProjZ
