import Bigmachine.Ec2.UserData

/-!
# The templates of the user data, rendered

`UserData` writes the units and files of `cloudConfig` out as they are rendered. Here are the
templates themselves, and that `tmpl` renders them so.

The strings that are inserted are escaped for HTML, although what is rendered is not HTML. The
names of devices have no characters that are escaped, and in the texts they are those of the
volumes that were requested (`requires_requested`). The URL of the program may have some, and then
the script that boots the instance fetches another URL (`bootmachine_verbatim_iff`).
-/

namespace Bigmachine.Ec2.Template

/-! ## The sources -/

/-- An action of a template. -/
def action (s : String) : String := "\x7b\x7b" ++ s ++ "\x7d\x7d"

/-- A raw string of the source: its lines are one tab deeper than the line that closes it. -/
def literal (tabs : String) (ls : List String) : String :=
  "\n" ++ String.join (ls.map fun line => tabs ++ "\t" ++ line ++ "\n") ++ tabs

def formatSource : String := literal "\t\t\t" [
  "[Unit]",
  "Description=Format /dev/" ++ action ".name",
  "After=dev-" ++ action ".name" ++ ".device",
  "Requires=dev-" ++ action ".name" ++ ".device",
  "[Service]",
  "Type=oneshot",
  "RemainAfterExit=yes",
  "ExecStart=/usr/bin/env wipefs -f /dev/" ++ action ".name",
  "ExecStart=/usr/bin/env mkfs.ext4 -F /dev/" ++ action ".name"]

def stripeSource : String := literal "\t\t\t" [
  "[Unit]",
  "Description=Format /dev/" ++ action ".md",
  "After=" ++ action "range $_, $name :=  .devices" ++ "dev-" ++ action "$name" ++ ".device " ++
    action "end",
  "Requires=" ++ action "range $_, $name := .devices" ++ "dev-" ++ action "$name" ++ ".device " ++
    action "end",
  "[Service]",
  "Type=oneshot",
  "RemainAfterExit=yes",
  "ExecStart=/usr/bin/env mdadm --create --run --verbose /dev/" ++ action ".md" ++
    " --level=0 --chunk=256 --name=bigmachine --raid-devices=" ++ action ".devices|len" ++ " " ++
    action "range $_, $name := .devices" ++ "/dev/" ++ action "$name" ++ " " ++ action "end",
  "ExecStart=/usr/bin/env mkfs.ext4 -F /dev/" ++ action ".md"]

def mountSource : String := literal "\t\t\t" [
  "[Unit]",
  "After=format-" ++ action ".name" ++ ".service",
  "Requires=format-" ++ action ".name" ++ ".service",
  "[Mount]",
  "What=/dev/" ++ action ".name",
  "Where=/mnt/data",
  "Type=ext4",
  "Options=data=writeback"]

def sysctlSource : String := literal "\t\t" [
  "fs.file-max = " ++ action ".filemax",
  "fs.nr_open = " ++ action ".nropen"]

def bootSource : String := literal "\t\t" [
  "#!/bin/bash",
  "set -e",
  "systemctl set-default poweroff.target",
  "bin=/tmp/ec2boot",
  "curl -s " ++ action ".binary" ++ " >$bin",
  "chmod +x $bin",
  "export BIGMACHINE_MODE=machine",
  "export BIGMACHINE_SYSTEM=ec2",
  "export BIGMACHINE_ADDR=:" ++ action "443",
  "$bin -log=debug || true",
  "sleep 30",
  "exit 1"]

def updateSource : String := literal "\t\t" [
  "[Unit]",
  "Description=Update sysctl",
  "[Service]",
  "ExecStart=" ++ action ".sysctlPath" ++ " /etc/sysctl.d/90-bigmachine"]

def serviceSource : String := literal "\t\t" [
  "[Unit]",
  "Description=bootmachine",
  "Requires=network.target",
  "After=network.target",
  action "if .data",
  "After=mnt-data.mount",
  "Requires=mnt-data.mount",
  action "end",
  action "if .mortal",
  "OnFailure=poweroff.target",
  "OnFailureJobMode=replace-irreversibly",
  action "end",
  "[Service]",
  "OOMScoreAdjust=1000",
  "Type=oneshot",
  "LimitNOFILE=" ++ action ".nropen",
  action ".environ",
  "ExecStart=/opt/bin/bootmachine"]

/-! ### The arguments -/

def nropen : Nat := 32 <<< 20 -- the limit of a process

def filemax : Nat := nropen * 4 -- the limit of the system

def sysctlPath (s : SystemConfig) : String :=
  if s.flavor = .flatcar then "/usr/lib/systemd/systemd-sysctl" else "/lib/systemd/systemd-sysctl"

def environ (data : Bool) : String := if data then "Environment=TMPDIR=/mnt/data" else ""

def serviceArgs (s : SystemConfig) (data : Bool) : Args :=
  [("mortal", .bool !s.immortal), ("environ", .string (environ data)), ("nropen", .int nropen),
    ("data", .bool data)]

/-! ## Parsing

The characters of a source are computed line by line, so that each template is parsed by
evaluation. -/

theorem toList_literal (tabs : String) (ls : List String) :
    (literal tabs ls).toList =
      '\n' :: (ls.flatMap fun line => tabs.toList ++ '\t' :: line.toList ++ ['\n']) ++
        tabs.toList := by
  simp [literal, List.flatMap_map]

theorem template_format : template formatSource.toList = .ok [
    .text "[Unit]\nDescription=Format /dev/", .field "name",
    .text "\nAfter=dev-", .field "name", .text ".device\nRequires=dev-", .field "name",
    .text (".device\n[Service]\nType=oneshot\nRemainAfterExit=yes\n" ++
      "ExecStart=/usr/bin/env wipefs -f /dev/"), .field "name",
    .text "\nExecStart=/usr/bin/env mkfs.ext4 -F /dev/", .field "name", .text ""] := by
  simp only [formatSource, toList_literal, List.flatMap_cons, List.flatMap_nil, action,
    String.toList_append]
  repeat rw [String.toList_ofList]
  set_option maxRecDepth 10000 in
  rfl

theorem template_stripe : template stripeSource.toList = .ok [
    .text "[Unit]\nDescription=Format /dev/", .field "md",
    .text "\nAfter=", .range "devices" [.text "dev-", .item, .text ".device "],
    .text "\nRequires=", .range "devices" [.text "dev-", .item, .text ".device "],
    .text ("\n[Service]\nType=oneshot\nRemainAfterExit=yes\n" ++
      "ExecStart=/usr/bin/env mdadm --create --run --verbose /dev/"), .field "md",
    .text " --level=0 --chunk=256 --name=bigmachine --raid-devices=", .len "devices",
    .text " ", .range "devices" [.text "/dev/", .item, .text " "],
    .text "\nExecStart=/usr/bin/env mkfs.ext4 -F /dev/", .field "md", .text ""] := by
  simp only [stripeSource, toList_literal, List.flatMap_cons, List.flatMap_nil, action,
    String.toList_append]
  repeat rw [String.toList_ofList]
  set_option maxRecDepth 10000 in
  rfl

theorem template_mount : template mountSource.toList = .ok [
    .text "[Unit]\nAfter=format-", .field "name", .text ".service\nRequires=format-",
    .field "name", .text ".service\n[Mount]\nWhat=/dev/", .field "name",
    .text "\nWhere=/mnt/data\nType=ext4\nOptions=data=writeback"] := by
  simp only [mountSource, toList_literal, List.flatMap_cons, List.flatMap_nil, action,
    String.toList_append]
  repeat rw [String.toList_ofList]
  rfl

theorem template_sysctl : template sysctlSource.toList = .ok [
    .text "fs.file-max = ", .field "filemax", .text "\nfs.nr_open = ", .field "nropen",
    .text ""] := by
  simp only [sysctlSource, toList_literal, List.flatMap_cons, List.flatMap_nil, action,
    String.toList_append]
  repeat rw [String.toList_ofList]
  rfl

theorem template_boot : template bootSource.toList = .ok [
    .text "#!/bin/bash\nset -e\nsystemctl set-default poweroff.target\nbin=/tmp/ec2boot\ncurl -s ",
    .field "binary",
    .text (" >$bin\nchmod +x $bin\nexport BIGMACHINE_MODE=machine\n" ++
      "export BIGMACHINE_SYSTEM=ec2\nexport BIGMACHINE_ADDR=:"),
    .number 443,
    .text "\n$bin -log=debug || true\nsleep 30\nexit 1"] := by
  simp only [bootSource, toList_literal, List.flatMap_cons, List.flatMap_nil, action,
    String.toList_append]
  repeat rw [String.toList_ofList]
  set_option maxRecDepth 10000 in
  rfl

theorem template_update : template updateSource.toList = .ok [
    .text "[Unit]\nDescription=Update sysctl\n[Service]\nExecStart=", .field "sysctlPath",
    .text " /etc/sysctl.d/90-bigmachine"] := by
  simp only [updateSource, toList_literal, List.flatMap_cons, List.flatMap_nil, action,
    String.toList_append]
  repeat rw [String.toList_ofList]
  rfl

theorem template_service : template serviceSource.toList = .ok [
    .text "[Unit]\nDescription=bootmachine\nRequires=network.target\nAfter=network.target\n",
    .cond "data" [.text "\nAfter=mnt-data.mount\nRequires=mnt-data.mount\n"], .text "\n",
    .cond "mortal" [
      .text "\nOnFailure=poweroff.target\nOnFailureJobMode=replace-irreversibly\n"],
    .text "\n[Service]\nOOMScoreAdjust=1000\nType=oneshot\nLimitNOFILE=", .field "nropen",
    .text "\n", .field "environ", .text "\nExecStart=/opt/bin/bootmachine"] := by
  simp only [serviceSource, toList_literal, List.flatMap_cons, List.flatMap_nil, action,
    String.toList_append]
  repeat rw [String.toList_ofList]
  set_option maxRecDepth 10000 in
  rfl

/-! ## Rendering -/

theorem escape_of_plain {s : String} (h : Plain s) : escape s = s := (escape_eq_iff s).mpr h

/-- A `range` inserts its body for every item. -/
theorem execNode_range {args : Args} {item : Option String} {name : String} {l : List String}
    {body : List Node} {f : String → String} (hargs : args.lookup name = some (.strings l))
    (hbody : ∀ x ∈ l, execNodes args (some x) body = some (f x)) :
    execNode args item (.range name body) = some (each f l) := by
  have hmap : l.mapM (fun x => execNodes args (some x) body) = some (l.map f) := by
    clear hargs
    induction l with
    | nil => rfl
    | cons x l ih =>
      rw [List.mapM_cons, hbody x (List.mem_cons_self ..),
        ih fun y hy => hbody y (List.mem_cons_of_mem _ hy)]
      rfl
  rw [execNode, hargs]
  simp only [hmap, Option.map_some, each]

/-- Two texts are equal if their characters are. -/
theorem some_lines {s : String} {ls : List String}
    (h : s.toList = ['\n'].intercalate (ls.map String.toList)) : some s = some (lines ls) := by
  rw [Option.some_inj, lines, ← String.toList_inj, h, String.toList_intercalate]
  rfl

theorem tmpl_formatUnit {name : String} (h : Plain name) :
    tmpl formatSource [("name", .string name)] = .ok (formatUnit name).content := by
  refine tmpl_ok template_format ?_
  simp only [execNodes, execNode, List.lookup_cons_self, escape_of_plain h, formatUnit]
  refine some_lines ?_
  simp only [List.map_cons, List.map_nil, String.toList_append, List.intercalate_cons_cons,
    List.intercalate_singleton, List.append_assoc]
  repeat rw [String.toList_ofList]
  simp only [List.append_nil]
  rfl

theorem tmpl_stripeUnit {md : String} {devices : List String} (hmd : Plain md)
    (h : ∀ name ∈ devices, Plain name) :
    tmpl stripeSource [("devices", .strings devices), ("md", .string md)] =
      .ok (stripeUnit md devices).content := by
  have hitems : ∀ before after : String, ∀ name ∈ devices,
      execNodes [("devices", .strings devices), ("md", .string md)] (some name)
        [.text before, .item, .text after] = some (before ++ name ++ after) := by
    intro before after name hname
    simp only [execNodes, execNode, Option.map_some, escape_of_plain (h name hname),
      String.append_empty, String.append_assoc]
  have hlookup : List.lookup "md" [("devices", Value.strings devices), ("md", .string md)] =
      some (.string md) := rfl
  refine tmpl_ok template_stripe ?_
  simp only [execNodes, execNode_range List.lookup_cons_self (hitems _ _)]
  simp only [execNode, hlookup, List.lookup_cons_self, escape_of_plain hmd, stripeUnit]
  refine some_lines ?_
  simp only [List.map_cons, List.map_nil, String.toList_append, List.intercalate_cons_cons,
    List.intercalate_singleton, List.append_assoc]
  repeat rw [String.toList_ofList]
  simp only [List.append_nil]
  rfl

theorem tmpl_mountUnit {name : String} (h : Plain name) :
    tmpl mountSource [("name", .string name)] = .ok (mountUnit name).content := by
  refine tmpl_ok template_mount ?_
  simp only [execNodes, execNode, List.lookup_cons_self, escape_of_plain h, mountUnit]
  refine some_lines ?_
  simp only [List.map_cons, List.map_nil, String.toList_append, List.intercalate_cons_cons,
    List.intercalate_singleton, List.append_assoc]
  repeat rw [String.toList_ofList]
  rfl

theorem tmpl_sysctlFile :
    tmpl sysctlSource [("filemax", .int filemax), ("nropen", .int nropen)] =
      .ok sysctlFile.content := by
  refine tmpl_ok template_sysctl ?_
  decide +kernel

theorem tmpl_bootmachineFile (s : SystemConfig) :
    tmpl bootSource [("binary", .string s.binary)] = .ok (bootmachineFile s).content := by
  refine tmpl_ok template_boot ?_
  simp only [execNodes, execNode, List.lookup_cons_self, bootmachineFile, bootScript]
  refine some_lines ?_
  simp only [List.map_cons, List.map_nil, String.toList_append, List.intercalate_cons_cons,
    List.intercalate_singleton, List.append_assoc]
  repeat rw [String.toList_ofList]
  set_option maxRecDepth 10000 in
  rfl

theorem tmpl_updateSysctl (s : SystemConfig) :
    tmpl updateSource [("sysctlPath", .string (sysctlPath s))] = .ok (updateSysctl s).content := by
  have hplain : Plain (sysctlPath s) := by
    unfold sysctlPath
    split <;> decide
  refine tmpl_ok template_update ?_
  simp only [execNodes, execNode, List.lookup_cons_self, escape_of_plain hplain, updateSysctl]
  refine some_lines ?_
  simp only [List.map_cons, List.map_nil, String.toList_append, List.intercalate_cons_cons,
    List.intercalate_singleton, List.append_assoc]
  repeat rw [String.toList_ofList]
  rfl

theorem tmpl_bootmachine (s : SystemConfig) (data : Bool) :
    tmpl serviceSource (serviceArgs s data) = .ok (bootmachine s data).content := by
  have hdata : (serviceArgs s data).lookup "data" = some (.bool data) := rfl
  have hmortal : (serviceArgs s data).lookup "mortal" = some (.bool !s.immortal) := rfl
  have henviron : (serviceArgs s data).lookup "environ" = some (.string (environ data)) := rfl
  have hnropen : (serviceArgs s data).lookup "nropen" = some (.int nropen) := rfl
  have hplain : Plain (environ data) := by
    unfold environ
    split <;> decide
  refine tmpl_ok template_service ?_
  simp only [execNodes, execNode, hdata, hmortal, henviron, hnropen, escape_of_plain hplain,
    bootmachine]
  cases data <;> cases s.immortal <;>
  · simp only [environ, Bool.not_true, Bool.not_false, if_true, Bool.false_eq_true, if_false,
      List.cons_append, List.nil_append]
    refine some_lines ?_
    simp only [List.map_cons, List.map_nil, String.toList_append, List.intercalate_cons_cons,
      List.intercalate_singleton, List.append_assoc]
    repeat rw [String.toList_ofList]
    set_option maxRecDepth 10000 in
    rfl

/-! ### The names of the devices -/

/-- The text has letters and digits only. -/
def Alnum (s : String) : Prop := ∀ c ∈ s.toList, c.isAlphanum = true

instance (s : String) : Decidable (Alnum s) := List.decidableBAll _ s.toList

theorem alnum_append {s t : String} (hs : Alnum s) (ht : Alnum t) : Alnum (s ++ t) := by
  intro c hc
  rw [String.toList_append, List.mem_append] at hc
  exact hc.elim (hs c) (ht c)

theorem alnum_toString (n : Nat) : Alnum (toString n) := by
  intro c hc
  rw [Nat.toString_eq_ofList_toDigits, String.toList_ofList] at hc
  have hdigit := Nat.isDigit_of_mem_toDigits (by decide) (by decide) hc
  rw [Char.isAlphanum, hdigit, Bool.or_true]

theorem alnum_letter : ∀ i < 25, Alnum (letter i) := by
  decide

theorem alnum_deviceNames (s : SystemConfig) {n : Nat} (hn : n ≤ 25) :
    ∀ name ∈ deviceNames s n, Alnum name := by
  intro name hname
  obtain ⟨i, hi, rfl⟩ := List.mem_map.mp hname
  split
  · exact alnum_append (alnum_append (by decide) (alnum_toString _)) (by decide)
  · exact alnum_append (by decide) (alnum_letter i ((List.mem_range.mp hi).trans_le hn))

theorem Alnum.not_mem {s : String} (h : Alnum s) {c : Char} (hc : c.isAlphanum = false) :
    c ∉ s.toList := by
  intro hmem
  rw [h c hmem] at hc
  cases hc

theorem Alnum.plain {s : String} (h : Alnum s) : Plain s := by
  intro c hc hspecial
  simp only [special, List.mem_cons, List.not_mem_nil, or_false] at hspecial
  rcases hspecial with rfl | rfl | rfl | rfl | rfl | rfl <;> exact h.not_mem rfl hc

theorem plain_dataDevice {names : List String} (h : ∀ name ∈ names, Plain name) :
    ∀ name ∈ dataDevice names, Plain name := by
  intro name hname
  rcases names with _ | ⟨a, _ | ⟨b, names⟩⟩
  · cases hname
  · cases hname
    exact h name (List.mem_singleton_self name)
  · cases hname
    decide

/-- The text of the unit that formats the devices, from its template. -/
def formattingText : List String → Option (Except Failure String)
  | [] => none
  | [name] => some (tmpl formatSource [("name", .string name)])
  | names => some (tmpl stripeSource [("devices", .strings names), ("md", .string "md0")])

theorem formatting_rendered {names : List String} (h : ∀ name ∈ names, Plain name) :
    (formatting names).map (fun unit => .ok unit.content) = formattingText names := by
  rcases names with _ | ⟨a, _ | ⟨b, names⟩⟩
  · rfl
  · exact congrArg some (tmpl_formatUnit (h a (List.mem_singleton_self a))).symm
  · exact congrArg some (tmpl_stripeUnit (by decide) h).symm

/-- The texts of the units and files of the config for the devices `names` are what `tmpl` makes of
their templates. -/
structure Rendered (s : SystemConfig) (names : List String) : Prop where
  format : (formatting names).map (fun unit => .ok unit.content) = formattingText names
  mount : ∀ name ∈ dataDevice names,
    tmpl mountSource [("name", .string name)] = .ok (mountUnit name).content
  sysctl : tmpl sysctlSource [("filemax", .int filemax), ("nropen", .int nropen)] =
    .ok sysctlFile.content
  boot : tmpl bootSource [("binary", .string s.binary)] = .ok (bootmachineFile s).content
  update : tmpl updateSource [("sysctlPath", .string (sysctlPath s))] = .ok (updateSysctl s).content
  service : tmpl serviceSource (serviceArgs s (names ≠ [])) =
    .ok (bootmachine s (names ≠ [])).content

/-- With `n` volumes, there is a config for `n` devices, and it is rendered from the templates. -/
theorem cloudConfig_rendered {s : SystemConfig} {n : Nat}
    (h : (sliceConfig s.dataspace).1.toInt = n) :
    ∃ c, cloudConfig s = .ok c ∧ Uses s c (deviceNames s n) ∧ Rendered s (deviceNames s n) := by
  obtain ⟨c, hc, huses⟩ := cloudConfig_uses h
  have hn : n ≤ 25 := by
    have hle := nslice_le s.dataspace
    omega
  have hplain := fun name hname => (alnum_deviceNames s hn name hname).plain
  exact ⟨c, hc, huses, formatting_rendered hplain,
    fun name hname => tmpl_mountUnit (plain_dataDevice hplain name hname), tmpl_sysctlFile,
    tmpl_bootmachineFile s, tmpl_updateSysctl s, tmpl_bootmachine s _⟩

/-! ### The devices in the texts -/

/-- The words of a line after `key`, if it begins so. -/
def lineWords (key : String) (line : List Char) : List String :=
  if key.toList <+: line then
    (((line.drop key.toList.length).splitOn ' ').filter (· ≠ [])).map String.ofList
  else []

/-- The words after `key` in the lines of a text. -/
def wordsAfter (key content : String) : List String :=
  (content.toList.splitOn '\n').flatMap (lineWords key)

/-- The units that a unit requires. -/
def required (u : CloudUnit) : List String := wordsAfter "Requires=" u.content

/-- The unit of a device, from its path below `/dev`. -/
def deviceUnit (path : String) : String := "dev-" ++ String.ofList (path.toList.drop 5) ++ ".device"

theorem wordsAfter_lines (key : String) {ls : List String} (hne : ls ≠ [])
    (h : ∀ l ∈ ls, '\n' ∉ l.toList) :
    wordsAfter key (lines ls) = ls.flatMap fun l => lineWords key l.toList := by
  have htoList : (lines ls).toList = ['\n'].intercalate (ls.map String.toList) := by
    rw [lines, String.toList_intercalate]
    rfl
  rw [wordsAfter, htoList, List.splitOn_intercalate, List.flatMap_map]
  · intro l hl
    obtain ⟨line, hline, rfl⟩ := List.mem_map.mp hl
    exact h line hline
  · simpa using hne

/-- A line that begins with another word. -/
theorem lineWords_of_apart {key word : String} (h : ¬ key.toList <+: word.toList)
    (h' : ¬ word.toList <+: key.toList) (rest : String) :
    lineWords key (word ++ rest).toList = [] := by
  refine if_neg fun hprefix => ?_
  rw [String.toList_append] at hprefix
  exact (List.prefix_or_prefix_of_prefix hprefix (List.prefix_append _ _)).elim h h'

theorem flatMap_snoc_eq_intercalate {α : Type} (x : α) (ls : List (List α)) :
    ls.flatMap (· ++ [x]) = [x].intercalate (ls ++ [[]]) := by
  induction ls with
  | nil => rfl
  | cons l ls ih =>
    have hne : ls ++ [[]] ≠ [] := by simp
    obtain ⟨m, ms, hcons⟩ := List.exists_cons_of_ne_nil hne
    rw [List.flatMap_cons, ih, List.cons_append, hcons, List.intercalate_cons_cons]

/-- The words of a line are what stands between its blanks. -/
theorem lineWords_of_split {key line : String} {words : List String}
    (hsplit : line.toList.splitOn ' ' = words.map String.toList ++ [[]] ∨
      line.toList.splitOn ' ' = words.map String.toList)
    (h : ∀ w ∈ words, w ≠ "") : lineWords key (key ++ line).toList = words := by
  have hfilter : (words.map String.toList).filter (· ≠ []) = words.map String.toList := by
    rw [List.filter_eq_self]
    intro l hl
    obtain ⟨w, hw, rfl⟩ := List.mem_map.mp hl
    simpa using h w hw
  have hback : (words.map String.toList).map String.ofList = words := by
    rw [List.map_map]
    exact (List.map_congr_left fun w _ => String.ofList_toList).trans (List.map_id _)
  rw [lineWords, String.toList_append, if_pos (List.prefix_append _ _), List.drop_left]
  rcases hsplit with hsplit | hsplit
  · rw [hsplit, List.filter_append, hfilter, List.map_append, hback]
    simp
  · rw [hsplit, hfilter, hback]

theorem lineWords_each (key : String) {words : List String}
    (h : ∀ w ∈ words, w ≠ "" ∧ ' ' ∉ w.toList) :
    lineWords key (key ++ each (· ++ " ") words).toList = words := by
  refine lineWords_of_split (Or.inl ?_) fun w hw => (h w hw).1
  have heach : (each (· ++ " ") words).toList = (words.map String.toList).flatMap (· ++ [' ']) := by
    rw [each, String.toList_join, List.flatMap_map, List.flatMap_map]
    exact List.flatMap_congr fun w _ => String.toList_append
  rw [heach, flatMap_snoc_eq_intercalate, List.splitOn_intercalate]
  · intro l hl
    rcases List.mem_append.mp hl with hl | hl
    · obtain ⟨w, hw, rfl⟩ := List.mem_map.mp hl
      exact (h w hw).2
    · rw [List.mem_singleton.mp hl]
      exact List.not_mem_nil
  · simp

theorem lineWords_one (key : String) {w : String} (hne : w ≠ "") (h : ' ' ∉ w.toList) :
    lineWords key (key ++ w).toList = [w] := by
  refine lineWords_of_split (Or.inr ?_) (by simpa using hne)
  have hsplit : ([' '].intercalate [w.toList]).splitOn ' ' = [w.toList] :=
    List.splitOn_intercalate ' ' (by simpa using h) (by simp)
  rwa [List.intercalate_singleton] at hsplit

/-- The lines of the two units that begin otherwise. -/
theorem required_other :
    ∀ line ∈ ["[Unit]", "[Service]", "Type=oneshot", "RemainAfterExit=yes"],
      lineWords "Requires=" line.toList = [] := by
  decide

theorem required_formatUnit {name : String} (h : Alnum name) :
    required (formatUnit name) = ["dev-" ++ name ++ ".device"] := by
  have hreq : lineWords "Requires=" ("Requires=dev-" ++ (name ++ ".device")).toList =
      ["dev-" ++ name ++ ".device"] := by
    have hline : "Requires=dev-" ++ (name ++ ".device") =
        "Requires=" ++ ("dev-" ++ name ++ ".device") := by
      rw [← String.append_assoc, ← String.append_assoc, ← String.append_assoc]
      rfl
    rw [hline]
    exact lineWords_one _ (by simp) (by simp [h.not_mem])
  rw [required, formatUnit, wordsAfter_lines _ (by simp)]
  · simp (disch := decide) only [List.flatMap_cons, List.flatMap_nil, String.append_assoc, hreq,
      lineWords_of_apart, required_other, List.nil_append, List.append_nil]
  · intro l hl
    simp only [List.mem_cons, List.not_mem_nil, or_false] at hl
    rcases hl with rfl | rfl | rfl | rfl | rfl | rfl | rfl | rfl | rfl <;> simp [h.not_mem]

theorem not_mem_each {c : Char} {f : String → String} {names : List String}
    (h : ∀ name ∈ names, c ∉ (f name).toList) : c ∉ (each f names).toList := by
  intro hmem
  simp only [each, String.toList_join, List.flatMap_map, List.mem_flatMap] at hmem
  obtain ⟨name, hname, hmem⟩ := hmem
  exact h name hname hmem

theorem lineWords_requires {names : List String} (h : ∀ name ∈ names, Alnum name) :
    lineWords "Requires="
      ("Requires=" ++ each (fun name => "dev-" ++ (name ++ ".device ")) names).toList =
      names.map fun name => "dev-" ++ name ++ ".device" := by
  have heach : each (fun name => "dev-" ++ (name ++ ".device ")) names =
      each (· ++ " ") (names.map fun name => "dev-" ++ name ++ ".device") := by
    rw [each, each, List.map_map]
    refine congrArg String.join (List.map_congr_left fun name _ => ?_)
    rw [Function.comp_apply, String.append_assoc, String.append_assoc]
    rfl
  rw [heach]
  refine lineWords_each _ fun w hw => ?_
  obtain ⟨name, hname, rfl⟩ := List.mem_map.mp hw
  exact ⟨by simp, by simp [(h name hname).not_mem]⟩

theorem required_stripeUnit {md : String} {names : List String} (hmd : Alnum md)
    (h : ∀ name ∈ names, Alnum name) :
    required (stripeUnit md names) = names.map fun name => "dev-" ++ name ++ ".device" := by
  rw [required, stripeUnit, wordsAfter_lines _ (by simp)]
  · simp (disch := decide) only [List.flatMap_cons, List.flatMap_nil, String.append_assoc,
      lineWords_requires h, lineWords_of_apart, required_other, List.nil_append, List.append_nil]
  · intro l hl
    simp only [List.mem_cons, List.not_mem_nil, or_false] at hl
    have hdev : '\n' ∉ (each (fun name => "dev-" ++ name ++ ".device ") names).toList :=
      not_mem_each fun name hname => by simp [(h name hname).not_mem]
    have hpath : '\n' ∉ (each (fun name => "/dev/" ++ name ++ " ") names).toList :=
      not_mem_each fun name hname => by simp [(h name hname).not_mem]
    have hlength : '\n' ∉ Nat.toDigits 10 names.length := by
      simpa using (alnum_toString names.length).not_mem (c := '\n') rfl
    rcases hl with rfl | rfl | rfl | rfl | rfl | rfl | rfl | rfl | rfl <;>
      simp [hmd.not_mem, hdev, hpath, hlength]

/-- The unit that formats the devices waits for them. -/
theorem required_formatting {names : List String} (h : ∀ name ∈ names, Alnum name) :
    ∀ u ∈ formatting names, required u = names.map fun name => "dev-" ++ name ++ ".device" := by
  intro u hu
  rcases names with _ | ⟨a, _ | ⟨b, names⟩⟩
  · cases hu
  · cases hu
    exact required_formatUnit (h a (List.mem_singleton_self a))
  · cases hu
    exact required_stripeUnit (by decide) h

/-- **What is formatted was requested.** In the text of the unit that formats the data volumes of an
instance without NVMe, the devices that it waits for are those that `Start` requests, in order. -/
theorem requires_requested {s : SystemConfig} (hs : s.nvme = false) (rootDeviceName : Option String)
    {n : Nat} (hn : 0 < n) (h : (sliceConfig s.dataspace).1.toInt = n) :
    ∃ c, cloudConfig s = .ok c ∧
      ∃ u ∈ c.units, required u = (requested s rootDeviceName).map deviceUnit := by
  obtain ⟨c, hc, huses⟩ := cloudConfig_uses h
  have hle : n ≤ 25 := by
    have hle := nslice_le s.dataspace
    omega
  obtain ⟨unit, -, -, -, -, hunit, -⟩ := formatData_of_pos h hn (baseConfig s)
  refine ⟨c, hc, unit, by simp [huses.units, hunit], ?_⟩
  rw [required_formatting (alnum_deviceNames s hle) unit hunit, requested_eq, h, deviceNames]
  simp only [hs, Bool.false_eq_true, if_false, List.map_map, Int.toNat_natCast]
  refine List.map_congr_left fun i _ => ?_
  have hdrop : ("/dev/xvd" ++ letter i).toList.drop 5 = ("xvd" ++ letter i).toList := by
    rw [String.toList_append, String.toList_append]
    rfl
  rw [Function.comp_apply, Function.comp_apply, deviceUnit, hdrop, String.ofList_toList]

/-! ### The script -/

theorem bootScript_inj {url url' : String} : bootScript url = bootScript url' ↔ url = url' := by
  have hscript : ∀ url, bootScript url =
      "#!/bin/bash\nset -e\nsystemctl set-default poweroff.target\nbin=/tmp/ec2boot\ncurl -s " ++
        url ++ (" >$bin\nchmod +x $bin\nexport BIGMACHINE_MODE=machine\n" ++
          "export BIGMACHINE_SYSTEM=ec2\nexport BIGMACHINE_ADDR=:443\n" ++
          "$bin -log=debug || true\nsleep 30\nexit 1") := by
    intro url
    refine (Option.some_inj.mp (some_lines ?_)).symm
    simp only [List.map_cons, List.map_nil, String.toList_append, List.intercalate_cons_cons,
      List.intercalate_singleton, List.append_assoc]
    repeat rw [String.toList_ofList]
    set_option maxRecDepth 10000 in
    rfl
  rw [hscript, hscript, String.append_left_inj, String.append_right_inj]

/-- **The boot script.** The script of every config is rendered by `tmpl`. It fetches the URL of the
program, character by character, exactly when the URL has none of the characters that are
escaped. -/
theorem bootmachine_verbatim_iff {s : SystemConfig} {c : CloudConfig}
    (h : cloudConfig s = .ok c) :
    bootmachineFile s ∈ c.writeFiles ∧ (bootmachineFile s).path = "/opt/bin/bootmachine" ∧
    tmpl bootSource [("binary", .string s.binary)] = .ok (bootmachineFile s).content ∧
    ((bootmachineFile s).content = bootScript s.binary ↔ Plain s.binary) := by
  obtain ⟨fs, hfs⟩ := cloudConfig_writeFiles h
  refine ⟨by simp [hfs], rfl, tmpl_bootmachineFile s, ?_⟩
  rw [bootmachineFile, bootScript_inj]
  exact escape_eq_iff s.binary

/-- A system that fetches the program from `url`. -/
def fetching (url : String) : SystemConfig :=
  { flavor := .flatcar, dataspace := 0, nvme := false, binary := url }

theorem cloudConfig_fetching (url : String) : ∃ c, cloudConfig (fetching url) = .ok c := by
  have hn : (sliceConfig (fetching url).dataspace).1.toInt = (0 : Nat) := by
    change (sliceConfig 0).1.toInt = (0 : Nat)
    decide
  obtain ⟨c, hc, -⟩ := cloudConfig_uses hn
  exact ⟨c, hc⟩

theorem bootmachine_verbatim_plain : ∃ c,
    cloudConfig (fetching "https://host/linux/amd64/ec2boot0.7") = .ok c ∧
    (bootmachineFile (fetching "https://host/linux/amd64/ec2boot0.7")).content =
      bootScript "https://host/linux/amd64/ec2boot0.7" := by
  obtain ⟨c, hc⟩ := cloudConfig_fetching "https://host/linux/amd64/ec2boot0.7"
  obtain ⟨-, -, -, hverbatim⟩ := bootmachine_verbatim_iff hc
  exact ⟨c, hc, hverbatim.mpr (by decide)⟩

/-- The separator of the parameters of a query is escaped. -/
theorem query_escaped :
    tmpl bootSource [("binary", .string "https://host/boot?a=1&b=2")] =
      .ok (bootScript "https://host/boot?a=1&amp;b=2") ∧
    ¬ ∀ s c, cloudConfig s = .ok c → (bootmachineFile s).content = bootScript s.binary := by
  have hescape : escape "https://host/boot?a=1&b=2" = "https://host/boot?a=1&amp;b=2" := by
    decide +kernel
  constructor
  · rw [← hescape]
    exact tmpl_bootmachineFile (fetching "https://host/boot?a=1&b=2")
  · intro h
    obtain ⟨c, hc⟩ := cloudConfig_fetching "https://host/boot?a=1&b=2"
    have hurl := bootScript_inj.mp (h _ c hc)
    exact absurd (hescape.symm.trans hurl) (by decide +kernel)

end Bigmachine.Ec2.Template
