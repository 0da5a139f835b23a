import Bigmachine.Errors.Values

/-!
# Cloud configs

`cloudConfig` is put together from files, systemd units, run commands and mounts and rendered
as YAML by `Marshal`. The encoder and `path.Join` are parameters (`Renderer`).

`Merge` adds one config to another. Merging a config that was built by the operations `ys`
should do what `ys` do (`MergesAs`). It does not for three of the six operations: run
commands and mounts are dropped, and SSH keys are appended where the operation sets them.
-/

namespace Bigmachine.Ec2

open Errors

inductive Flavor
  | flatcar | ubuntu
  deriving DecidableEq, Repr

structure CloudFile where
  path : String := ""
  permissions : String := ""
  owner : String := ""
  content : String := ""
  deriving DecidableEq, Repr

structure CloudUnit where
  name : String := ""
  command : String := ""
  enable : Bool := false
  content : String := ""
  sync : Bool := false -- run the command synchronously; not rendered
  deriving DecidableEq, Repr

/-- The fields `flavor` and `units` are not rendered; `coreOSUnits` is `CoreOS.Units`, which only
`Marshal` sets, and `rebootStrategy` is `CoreOS.Update.RebootStrategy`. -/
structure CloudConfig where
  flavor : Flavor := .flatcar
  writeFiles : List CloudFile := []
  rebootStrategy : String := ""
  coreOSUnits : List CloudUnit := []
  sshAuthorizedKeys : List String := []
  runCmd : List String := []
  mounts : List (List String) := []
  units : List CloudUnit := []
  deriving DecidableEq, Repr

namespace CloudConfig

def merge (c d : CloudConfig) : CloudConfig :=
  { c with
    writeFiles := c.writeFiles ++ d.writeFiles
    rebootStrategy := if d.rebootStrategy ≠ "" then d.rebootStrategy else c.rebootStrategy
    units := c.units ++ d.units
    sshAuthorizedKeys := c.sshAuthorizedKeys ++ d.sshAuthorizedKeys }

def appendFile (c : CloudConfig) (f : CloudFile) : CloudConfig :=
  { c with writeFiles := c.writeFiles ++ [f] }

def appendUnit (c : CloudConfig) (u : CloudUnit) : CloudConfig :=
  { c with units := c.units ++ [u] }

def appendRunCmd (c : CloudConfig) (cmd : String) : CloudConfig :=
  { c with runCmd := c.runCmd ++ [cmd] }

def appendMount (c : CloudConfig) (mount : List String) : CloudConfig :=
  { c with mounts := c.mounts ++ [mount] }

end CloudConfig

/-! ## Rendering -/

/-- The part of a config, and of its units, that the encoder sees. -/
structure RenderedUnit where
  name : String
  command : String
  enable : Bool
  content : String
  deriving DecidableEq

def CloudUnit.rendered (u : CloudUnit) : RenderedUnit := ⟨u.name, u.command, u.enable, u.content⟩

structure Document where
  writeFiles : List CloudFile
  rebootStrategy : String
  coreOSUnits : List RenderedUnit
  sshAuthorizedKeys : List String
  runCmd : List String
  mounts : List (List String)
  deriving DecidableEq

def CloudConfig.document (c : CloudConfig) : Document :=
  ⟨c.writeFiles, c.rebootStrategy, c.coreOSUnits.map CloudUnit.rendered, c.sshAuthorizedKeys,
    c.runCmd, c.mounts⟩

/-- `join` is `path.Join`, and `yaml` is `yaml.Marshal`. -/
structure Renderer where
  join : String → String → String
  yaml : Document → Except Err String

/-- The command that starts or stops a unit. -/
def CloudUnit.systemctl (u : CloudUnit) : String :=
  if u.sync then "systemctl " ++ u.command ++ " " ++ u.name
  else "systemctl --no-block " ++ u.command ++ " " ++ u.name

def CloudUnit.file (r : Renderer) (u : CloudUnit) : CloudFile where
  path := r.join "/etc/systemd/system" u.name
  permissions := "0644"
  content := u.content

/-- One round of the loop over the units in `Marshal`. -/
def CloudConfig.spellOut (r : Renderer) (copy : CloudConfig) (u : CloudUnit) : CloudConfig :=
  let copy := if u.content ≠ "" then copy.appendFile (u.file r) else copy
  copy.appendRunCmd u.systemctl

/-- The copy of the config that `Marshal` encodes. -/
def CloudConfig.prepared (r : Renderer) (c : CloudConfig) : CloudConfig :=
  if c.flavor = .flatcar then { c with coreOSUnits := c.units }
  else
    let copy := if 0 < c.units.length then c.appendRunCmd "systemctl daemon-reload" else c
    c.units.foldl (spellOut r) copy

def CloudConfig.marshal (r : Renderer) (c : CloudConfig) : Except Err String :=
  (r.yaml (c.prepared r).document).map ("#cloud-config\n" ++ ·)

/-- The files and the run commands that `Marshal` adds for units. -/
def unitFiles (r : Renderer) : Flavor → List CloudUnit → List CloudFile
  | .flatcar, _ => []
  | .ubuntu, us => (us.filter (·.content ≠ "")).map (CloudUnit.file r)

def unitCommands : Flavor → List CloudUnit → List String
  | .flatcar, _ => []
  | .ubuntu, us =>
    (if 0 < us.length then ["systemctl daemon-reload"] else []) ++ us.map CloudUnit.systemctl

theorem foldl_spellOut (r : Renderer) (c : CloudConfig) (us : List CloudUnit) :
    us.foldl (CloudConfig.spellOut r) c =
      { c with
        writeFiles := c.writeFiles ++ (us.filter (·.content ≠ "")).map (CloudUnit.file r)
        runCmd := c.runCmd ++ us.map CloudUnit.systemctl } := by
  induction us generalizing c with
  | nil => simp
  | cons u us ih =>
    rw [List.foldl_cons, ih]
    by_cases hu : u.content = "" <;>
      simp [CloudConfig.spellOut, CloudConfig.appendFile, CloudConfig.appendRunCmd, hu]

theorem prepared_eq (r : Renderer) (c : CloudConfig) :
    c.prepared r =
      { c with
        writeFiles := c.writeFiles ++ unitFiles r c.flavor c.units
        coreOSUnits := if c.flavor = .flatcar then c.units else c.coreOSUnits
        runCmd := c.runCmd ++ unitCommands c.flavor c.units } := by
  unfold CloudConfig.prepared
  by_cases hf : c.flavor = .flatcar
  · simp [unitFiles, unitCommands, hf]
  · have hubuntu : c.flavor = .ubuntu := by
      cases h : c.flavor with
      | flatcar => exact absurd h hf
      | ubuntu => rfl
    rw [if_neg hf, if_neg hf, foldl_spellOut]
    by_cases hu : 0 < c.units.length <;>
      simp [unitFiles, unitCommands, hu, CloudConfig.appendRunCmd, hubuntu]

/-! ## Operations -/

inductive Op
  | appendFile (f : CloudFile)
  | appendUnit (u : CloudUnit)
  | appendRunCmd (cmd : String)
  | appendMount (mount : List String)
  | setSshKeys (keys : List String)
  | setRebootStrategy (s : {s : String // s ≠ ""})

namespace Op

def file : Op → Option CloudFile
  | appendFile f => some f
  | _ => none

def unit : Op → Option CloudUnit
  | appendUnit u => some u
  | _ => none

def cmd : Op → Option String
  | appendRunCmd c => some c
  | _ => none

def mount : Op → Option (List String)
  | appendMount m => some m
  | _ => none

def keys : Op → Option (List String)
  | setSshKeys ks => some ks
  | _ => none

def strategy : Op → Option {s : String // s ≠ ""}
  | setRebootStrategy s => some s
  | _ => none

end Op

namespace CloudConfig

def apply (c : CloudConfig) : Op → CloudConfig
  | .appendFile f => c.appendFile f
  | .appendUnit u => c.appendUnit u
  | .appendRunCmd cmd => c.appendRunCmd cmd
  | .appendMount m => c.appendMount m
  | .setSshKeys ks => { c with sshAuthorizedKeys := ks }
  | .setRebootStrategy s => { c with rebootStrategy := s }

def applyAll (c : CloudConfig) (ops : List Op) : CloudConfig := ops.foldl apply c

/-- A new config of a flavor. -/
def new (f : Flavor) : CloudConfig := { flavor := f }

/-- The appended entries are those of the operations, in order; of what is set the last
counts. -/
theorem applyAll_eq (c : CloudConfig) (ops : List Op) :
    c.applyAll ops =
      { c with
        writeFiles := c.writeFiles ++ ops.filterMap Op.file
        rebootStrategy := ((ops.filterMap Op.strategy).getLast?.map Subtype.val).getD
          c.rebootStrategy
        sshAuthorizedKeys := (ops.filterMap Op.keys).getLast?.getD c.sshAuthorizedKeys
        runCmd := c.runCmd ++ ops.filterMap Op.cmd
        mounts := c.mounts ++ ops.filterMap Op.mount
        units := c.units ++ ops.filterMap Op.unit } := by
  induction ops using List.reverseRecOn with
  | nil => simp [applyAll]
  | append_singleton ops op ih =>
    have hlast : c.applyAll (ops ++ [op]) = (c.applyAll ops).apply op := by
      simp [applyAll]
    rw [hlast, ih]
    simp only [List.filterMap_append, List.filterMap_cons, List.filterMap_nil]
    cases op <;>
      simp [apply, appendFile, appendUnit, appendRunCmd, appendMount, Op.file, Op.unit, Op.cmd,
        Op.mount, Op.keys, Op.strategy]

/-- `Merge` adds to `c` what the operations would, but for run commands, mounts and SSH
keys. -/
theorem merge_applyAll (c : CloudConfig) (f : Flavor) (ys : List Op) :
    c.merge ((new f).applyAll ys) =
      { c.applyAll ys with
        sshAuthorizedKeys := c.sshAuthorizedKeys ++ (ys.filterMap Op.keys).getLast?.getD []
        runCmd := c.runCmd
        mounts := c.mounts } := by
  rw [applyAll_eq, applyAll_eq, merge]
  cases hs : (ys.filterMap Op.strategy).getLast? with
  | none => simp [new]
  | some s => simp [new, s.property]

end CloudConfig

/-! ## Merging -/

/-- The config that results from merging a config built by `ys` into one built by `xs`. -/
def merged (f g : Flavor) (xs ys : List Op) : CloudConfig :=
  ((CloudConfig.new f).applyAll xs).merge ((CloudConfig.new g).applyAll ys)

/-- The config that results from the operations `xs` and then `ys`. -/
def sequential (f : Flavor) (xs ys : List Op) : CloudConfig :=
  ((CloudConfig.new f).applyAll xs).applyAll ys

/-- No entry of a list of `d` is lost in `c`. -/
structure Keeps (d c : CloudConfig) : Prop where
  writeFiles : d.writeFiles <:+ c.writeFiles
  sshAuthorizedKeys : d.sshAuthorizedKeys <:+ c.sshAuthorizedKeys
  runCmd : d.runCmd <:+ c.runCmd
  mounts : d.mounts <:+ c.mounts
  units : d.units <:+ c.units

/-- Merging does what the operations do: the configs are equal, they are rendered alike, and
no entry is lost. -/
structure MergesAs (r : Renderer) (f g : Flavor) (xs ys : List Op) : Prop where
  equal : merged f g xs ys = sequential f xs ys
  bytes : (merged f g xs ys).marshal r = (sequential f xs ys).marshal r
  keeps : Keeps ((CloudConfig.new g).applyAll ys) (merged f g xs ys)

/-- The operations `ys` append no run command and no mount, and they set SSH keys only if
there are none after `xs`. -/
structure Mergeable (f : Flavor) (xs ys : List Op) : Prop where
  runCmd : ∀ cmd, .appendRunCmd cmd ∉ ys
  mounts : ∀ m, .appendMount m ∉ ys
  keys : (∃ ks, .setSshKeys ks ∈ ys) → ((CloudConfig.new f).applyAll xs).sshAuthorizedKeys = []

theorem Op.cmd_eq_some (op : Op) (cmd : String) : op.cmd = some cmd ↔ op = .appendRunCmd cmd := by
  cases op <;> simp [Op.cmd]

theorem Op.mount_eq_some (op : Op) (m : List String) : op.mount = some m ↔ op = .appendMount m := by
  cases op <;> simp [Op.mount]

theorem Op.keys_eq_some (op : Op) (ks : List String) : op.keys = some ks ↔ op = .setSshKeys ks := by
  cases op <;> simp [Op.keys]

theorem filterMap_eq_nil_iff_notMem {α : Type} {p : Op → Option α} {mk : α → Op}
    (h : ∀ op a, p op = some a ↔ op = mk a) (ys : List Op) :
    ys.filterMap p = [] ↔ ∀ a, mk a ∉ ys := by
  rw [List.filterMap_eq_nil_iff]
  constructor
  · intro hnone a ha
    have hsome := (h (mk a) a).mpr rfl
    rw [hnone _ ha] at hsome
    cases hsome
  · intro hno op hop
    rw [Option.eq_none_iff_forall_ne_some]
    intro a ha
    exact hno a ((h op a).mp ha ▸ hop)

/-- Appending the keys that `ys` set is setting them when there are none before. -/
theorem append_keys_iff (ks : List String) (ys : List Op) :
    ks ++ (ys.filterMap Op.keys).getLast?.getD [] = (ys.filterMap Op.keys).getLast?.getD ks ↔
      ((∃ ks, .setSshKeys ks ∈ ys) → ks = []) := by
  cases hlast : (ys.filterMap Op.keys).getLast? with
  | none =>
    have hno := (filterMap_eq_nil_iff_notMem Op.keys_eq_some ys).mp
      (List.getLast?_eq_none_iff.mp hlast)
    simp [hno]
  | some last =>
    have hset : ∃ ks, .setSshKeys ks ∈ ys := by
      by_contra hno
      push Not at hno
      rw [(filterMap_eq_nil_iff_notMem Op.keys_eq_some ys).mpr hno] at hlast
      cases hlast
    simp [hset]

/-- Where the two configs can differ. -/
theorem mergeable_iff (f g : Flavor) (xs ys : List Op) :
    Mergeable f xs ys ↔
      (merged f g xs ys).sshAuthorizedKeys = (sequential f xs ys).sshAuthorizedKeys ∧
      (merged f g xs ys).runCmd = (sequential f xs ys).runCmd ∧
      (merged f g xs ys).mounts = (sequential f xs ys).mounts := by
  have hkeys := append_keys_iff ((CloudConfig.new f).applyAll xs).sshAuthorizedKeys ys
  have hcmd := filterMap_eq_nil_iff_notMem Op.cmd_eq_some ys
  have hmount := filterMap_eq_nil_iff_notMem Op.mount_eq_some ys
  rw [merged, CloudConfig.merge_applyAll, sequential, CloudConfig.applyAll_eq _ ys]
  simp only [List.self_eq_append_right, hkeys, hcmd, hmount]
  exact ⟨fun h => ⟨h.keys, h.runCmd, h.mounts⟩, fun h => ⟨h.2.1, h.2.2, h.1⟩⟩

theorem merged_eq (f g : Flavor) (xs ys : List Op) :
    merged f g xs ys = { sequential f xs ys with
      sshAuthorizedKeys := (merged f g xs ys).sshAuthorizedKeys
      runCmd := (merged f g xs ys).runCmd
      mounts := (merged f g xs ys).mounts } := by
  rw [merged, CloudConfig.merge_applyAll, sequential]

theorem merged_eq_iff (f g : Flavor) (xs ys : List Op) :
    merged f g xs ys = sequential f xs ys ↔ Mergeable f xs ys := by
  rw [mergeable_iff f g]
  constructor
  · intro h
    rw [h]
    exact ⟨rfl, rfl, rfl⟩
  · rintro ⟨hkeys, hcmd, hmount⟩
    rw [merged_eq, hkeys, hcmd, hmount]

theorem keeps_of_mergeable {f g : Flavor} {xs ys : List Op} (h : Mergeable f xs ys) :
    Keeps ((CloudConfig.new g).applyAll ys) (merged f g xs ys) := by
  have hcmd := (filterMap_eq_nil_iff_notMem Op.cmd_eq_some ys).mpr h.runCmd
  have hmount := (filterMap_eq_nil_iff_notMem Op.mount_eq_some ys).mpr h.mounts
  refine ⟨List.suffix_append _ _, List.suffix_append _ _, ?_, ?_, List.suffix_append _ _⟩
  · rw [CloudConfig.applyAll_eq, hcmd]
    exact List.nil_suffix
  · rw [CloudConfig.applyAll_eq, hmount]
    exact List.nil_suffix

/-- Texts are the same only for the same documents. -/
def Renderer.Faithful (r : Renderer) : Prop :=
  ∀ d d' s, r.yaml d = .ok s → r.yaml d' = .ok s → d = d'

/-- A faithful encoder shows every difference. -/
theorem mergeable_of_bytes {r : Renderer} (hr : r.Faithful) {f g : Flavor} {xs ys : List Op}
    {s : String} (hm : (merged f g xs ys).marshal r = .ok s)
    (hs : (sequential f xs ys).marshal r = .ok s) : Mergeable f xs ys := by
  have hok : ∀ {c : CloudConfig}, c.marshal r = .ok s →
      ∃ b, r.yaml (c.prepared r).document = .ok b ∧ "#cloud-config\n" ++ b = s := by
    intro c hc
    cases hy : r.yaml (c.prepared r).document with
    | error e => simp [CloudConfig.marshal, hy, Except.map] at hc
    | ok b => exact ⟨b, rfl, by simpa [CloudConfig.marshal, hy, Except.map] using hc⟩
  obtain ⟨b, hb, hbs⟩ := hok hm
  obtain ⟨b', hb', hbs'⟩ := hok hs
  have hsame : b = b' := by
    rw [← hbs'] at hbs
    simpa using hbs
  have hdoc := hr _ _ b hb (hsame ▸ hb')
  rw [prepared_eq, prepared_eq] at hdoc
  have hflavor : (merged f g xs ys).flavor = (sequential f xs ys).flavor := by
    rw [merged_eq]
  have hunits : (merged f g xs ys).units = (sequential f xs ys).units := by
    rw [merged_eq]
  rw [hflavor, hunits] at hdoc
  refine (mergeable_iff f g xs ys).mpr ⟨congrArg Document.sshAuthorizedKeys hdoc, ?_,
    congrArg Document.mounts hdoc⟩
  exact List.append_cancel_right (congrArg Document.runCmd hdoc)

/-- **Merging.** For all operations `xs` and `ys`, merging a config built by `ys` into one
built by `xs` does what `xs` and then `ys` do exactly when `ys` append no run command and no
mount and set SSH keys only if there are none. Otherwise the rendered texts differ too, for
an encoder that shows all of a document. -/
theorem mergesAs_iff (r : Renderer) (f g : Flavor) (xs ys : List Op) :
    (MergesAs r f g xs ys ↔ Mergeable f xs ys) ∧
    (r.Faithful → ∀ s, (merged f g xs ys).marshal r = .ok s →
      (sequential f xs ys).marshal r = .ok s → Mergeable f xs ys) := by
  refine ⟨⟨fun h => (merged_eq_iff f g xs ys).mp h.equal, fun h => ?_⟩,
    fun hr s hm hs => mergeable_of_bytes hr hm hs⟩
  have heq := (merged_eq_iff f g xs ys).mpr h
  exact ⟨heq, by rw [heq], keeps_of_mergeable h⟩

namespace Reference

deriving instance Encodable for CloudFile, RenderedUnit, Document

/-- Documents are numbered, and encoded by the length of the text. -/
def renderer : Renderer where
  join dir name := dir ++ "/" ++ name
  yaml d := .ok (String.ofList (List.replicate (Encodable.encode d) '-'))

theorem renderer_faithful : renderer.Faithful := by
  intro d d' s hd hd'
  have hsame := congrArg String.toList (Except.ok.inj (hd.trans hd'.symm))
  rw [String.toList_ofList, String.toList_ofList, List.replicate_left_inj] at hsame
  exact Encodable.encode_injective hsame

/-- A config with a file and a unit, and another one for merging. -/
def xs : List Op :=
  [.setRebootStrategy ⟨"off", by decide⟩,
    .appendFile { path := "/tmp/x", content := "a test file" },
    .appendUnit { name := "reflowlet", command := "command", enable := true }]

def ys : List Op :=
  [.appendUnit { name := "xxx", command := "xxxcommand" }, .appendFile { path := "/tmp/myfile" }]

end Reference

theorem mergesAs_iff_reference :
    MergesAs Reference.renderer .flatcar .ubuntu Reference.xs Reference.ys ∧
    Mergeable .flatcar Reference.xs Reference.ys := by
  obtain ⟨hiff, hbytes⟩ := mergesAs_iff Reference.renderer .flatcar .ubuntu Reference.xs
    Reference.ys
  have hsame : ((merged .flatcar .ubuntu Reference.xs Reference.ys).prepared
      Reference.renderer).document =
      ((sequential .flatcar Reference.xs Reference.ys).prepared Reference.renderer).document := by
    decide
  have hm := hbytes Reference.renderer_faithful _ rfl (by rw [CloudConfig.marshal, ← hsame]; rfl)
  exact ⟨hiff.mpr hm, hm⟩

/-- A run command and a mount that are lost, and SSH keys that are kept though set anew. -/
theorem merge_drops :
    (merged .ubuntu .ubuntu [] [.appendRunCmd "reboot"]).runCmd = [] ∧
    (merged .ubuntu .ubuntu [] [.appendMount ["xvdb"]]).mounts = [] ∧
    (merged .ubuntu .ubuntu [.setSshKeys ["a"]] [.setSshKeys ["b"]]).sshAuthorizedKeys =
      ["a", "b"] ∧
    ∀ r : Renderer, ¬ ∀ f g xs ys, MergesAs r f g xs ys := by
  refine ⟨by decide, by decide, by decide, fun r h => ?_⟩
  have hcmd := congrArg CloudConfig.runCmd (h .ubuntu .ubuntu [] [.appendRunCmd "reboot"]).equal
  exact absurd hcmd (by decide)

end Bigmachine.Ec2
