import Bigmachine.Ec2.CloudConfig
import Bigmachine.Ec2.Template
import Bigmachine.Ec2.Volumes

/-!
# The user data of an instance

`System.cloudConfig` makes the config that an instance boots with: it formats the data volumes
(or stripes them, when there are several), mounts the result, and starts the program.
`System.Start` requests the volumes. The two derive the device names independently from
`sliceConfig`, and a name that only one of them knows would make the instance wait for a
device for ever; `VolumesAgree` says that they agree.

They do unless `sliceConfig` gives a negative number of volumes: `Start` then requests none,
and `cloudConfig` panics when it makes a slice of that length.

The units and files are written out as `tmpl` renders their templates. It escapes what it inserts,
which matters only for the URL of the program: the other strings have nothing to escape.
-/

namespace Bigmachine.Ec2

/-- What the two functions use of a `System`: `nvme` is `config.NVMe`, `authority` is
`s.authority.Contents()` and `immortal` is the flag `-ec2machineimmortal`. -/
structure SystemConfig where
  flavor : Flavor
  sshKeys : List String := []
  dataspace : UInt64
  diskspace : UInt64 := 200
  nvme : Bool
  binary : String := ""
  authority : String := ""
  additionalFiles : List CloudFile := []
  additionalUnits : List CloudUnit := []
  immortal : Bool := false

/-! ## `Start` -/

structure BlockDevice where
  deviceName : String
  volumeSize : Int64
  deleteOnTermination : Bool := true
  volumeType : String := "gp2"
  deriving DecidableEq

/-- `%c` of `'b' + i`. -/
def letter (i : Nat) : String := String.singleton (Char.ofNat ('b'.toNat + i))

/-- The block device mappings of `Start`, for the root device name of the image. -/
def blockDevices (s : SystemConfig) (rootDeviceName : Option String) : List BlockDevice :=
  let root : BlockDevice :=
    { deviceName := rootDeviceName.getD "/dev/xvda", volumeSize := (50 + s.diskspace).toInt64 }
  let (nslice, sliceSize) := sliceConfig s.dataspace
  root :: (List.range nslice.toInt.toNat).map fun i =>
    { deviceName := "/dev/xvd" ++ letter i, volumeSize := sliceSize }

/-! ## `cloudConfig` -/

def lines (ls : List String) : String := "\n".intercalate ls

/-- `{{range}}` over device names. -/
def each (f : String → String) (devices : List String) : String := String.join (devices.map f)

def formatUnit (name : String) : CloudUnit where
  name := "format-" ++ name ++ ".service"
  command := "start"
  content := lines [
    "[Unit]",
    "Description=Format /dev/" ++ name,
    "After=dev-" ++ name ++ ".device",
    "Requires=dev-" ++ name ++ ".device",
    "[Service]",
    "Type=oneshot",
    "RemainAfterExit=yes",
    "ExecStart=/usr/bin/env wipefs -f /dev/" ++ name,
    "ExecStart=/usr/bin/env mkfs.ext4 -F /dev/" ++ name]

def stripeUnit (md : String) (devices : List String) : CloudUnit where
  name := "format-" ++ md ++ ".service"
  command := "start"
  content := lines [
    "[Unit]",
    "Description=Format /dev/" ++ md,
    "After=" ++ each (fun name => "dev-" ++ name ++ ".device ") devices,
    "Requires=" ++ each (fun name => "dev-" ++ name ++ ".device ") devices,
    "[Service]",
    "Type=oneshot",
    "RemainAfterExit=yes",
    "ExecStart=/usr/bin/env mdadm --create --run --verbose /dev/" ++ md ++
      " --level=0 --chunk=256 --name=bigmachine --raid-devices=" ++ toString devices.length ++
      " " ++ each (fun name => "/dev/" ++ name ++ " ") devices,
    "ExecStart=/usr/bin/env mkfs.ext4 -F /dev/" ++ md]

def mountUnit (name : String) : CloudUnit where
  name := "mnt-data.mount"
  command := "start"
  content := lines [
    "[Unit]",
    "After=format-" ++ name ++ ".service",
    "Requires=format-" ++ name ++ ".service",
    "[Mount]",
    "What=/dev/" ++ name,
    "Where=/mnt/data",
    "Type=ext4",
    "Options=data=writeback"]

def updateSysctl (s : SystemConfig) : CloudUnit where
  name := "update-sysctl.service"
  enable := true
  command := "start"
  content := lines [
    "[Unit]",
    "Description=Update sysctl",
    "[Service]",
    "ExecStart=" ++ (if s.flavor = .flatcar then "/usr/lib/systemd/systemd-sysctl"
      else "/lib/systemd/systemd-sysctl") ++ " /etc/sysctl.d/90-bigmachine"]

/-- Each `{{if}}` and `{{end}}` leaves the end of its line behind. -/
def bootmachine (s : SystemConfig) (data : Bool) : CloudUnit where
  name := "bootmachine.service"
  enable := true
  command := "start"
  content := lines (
    ["[Unit]", "Description=bootmachine", "Requires=network.target", "After=network.target"] ++
    (if data then ["", "After=mnt-data.mount", "Requires=mnt-data.mount", ""] else [""]) ++
    (if s.immortal then [""]
      else ["", "OnFailure=poweroff.target", "OnFailureJobMode=replace-irreversibly", ""]) ++
    ["[Service]", "OOMScoreAdjust=1000", "Type=oneshot", "LimitNOFILE=33554432",
      if data then "Environment=TMPDIR=/mnt/data" else "", "ExecStart=/opt/bin/bootmachine"])

def sysctlFile : CloudFile where
  permissions := "0644"
  path := "/etc/sysctl.d/90-bigmachine"
  owner := "root"
  content := lines ["fs.file-max = 134217728", "fs.nr_open = 33554432"]

/-- The script that fetches the program from `url` and runs it. -/
def bootScript (url : String) : String :=
  lines [
    "#!/bin/bash",
    "set -e",
    "systemctl set-default poweroff.target",
    "bin=/tmp/ec2boot",
    "curl -s " ++ url ++ " >$bin",
    "chmod +x $bin",
    "export BIGMACHINE_MODE=machine",
    "export BIGMACHINE_SYSTEM=ec2",
    "export BIGMACHINE_ADDR=:443",
    "$bin -log=debug || true",
    "sleep 30",
    "exit 1"]

def bootmachineFile (s : SystemConfig) : CloudFile where
  permissions := "0755"
  path := "/opt/bin/bootmachine"
  owner := "root"
  content := bootScript (Template.escape s.binary)

def authorityFile (s : SystemConfig) : CloudFile where
  permissions := "0644"
  path := "/tmp/bigmachine.pem"
  content := s.authority

/-- The panic of `make` with a length out of range. -/
structure MakeSlice where
  len : Int64
  deriving DecidableEq

/-- The config before the data devices. -/
def baseConfig (s : SystemConfig) : CloudConfig :=
  let c : CloudConfig := { sshAuthorizedKeys := s.sshKeys, flavor := s.flavor }
  if s.flavor = .flatcar then
    ({ c with rebootStrategy := "off" }.appendUnit
      { name := "update-engine.service", command := "stop" }).appendUnit
      { name := "locksmithd.service", command := "stop" }
  else c

/-- The switch over the number of volumes: the config, `dataDeviceName` and `devices`. -/
def formatData (s : SystemConfig) (c : CloudConfig) :
    Except MakeSlice (CloudConfig × String × List String) :=
  let nslice := (sliceConfig s.dataspace).1
  if nslice = 0 then .ok (c, "", [])
  else if nslice = 1 then
    let dataDeviceName := if s.nvme then "nvme1n1" else "xvdb"
    .ok (c.appendUnit (formatUnit dataDeviceName), dataDeviceName, [])
  else if nslice.toInt < 0 then .error ⟨nslice⟩
  else
    let devices := (List.range nslice.toInt.toNat).map fun idx =>
      if s.nvme then "nvme" ++ toString (idx + 1) ++ "n1" else "xvd" ++ letter idx
    .ok (c.appendUnit (stripeUnit "md0" devices), "md0", devices)

/-- The mount of the data device; a mount spec with one argument disables a mount. -/
def mountData (s : SystemConfig) (c : CloudConfig) (dataDeviceName : String)
    (devices : List String) : CloudConfig :=
  if dataDeviceName ≠ "" then
    let c := c.appendUnit (mountUnit dataDeviceName)
    if s.flavor = .ubuntu then
      devices.foldl (fun c dev => c.appendMount [dev]) (c.appendMount [dataDeviceName])
    else c
  else c

/-- The files and units of every config. -/
def addServices (s : SystemConfig) (c : CloudConfig) (data : Bool) : CloudConfig :=
  let c := c.appendFile sysctlFile
  let c := s.additionalFiles.foldl CloudConfig.appendFile c
  let c := s.additionalUnits.foldl CloudConfig.appendUnit c
  let c := c.appendFile (bootmachineFile s)
  let c := c.appendFile (authorityFile s)
  let c := c.appendUnit (updateSysctl s)
  c.appendUnit (bootmachine s data)

def cloudConfig (s : SystemConfig) : Except MakeSlice CloudConfig :=
  match formatData s (baseConfig s) with
  | .error p => .error p
  | .ok (c, dataDeviceName, devices) =>
    .ok (addServices s (mountData s c dataDeviceName devices) (dataDeviceName ≠ ""))

/-! ## The config for given devices -/

/-- The device that holds the data. -/
def dataDevice : List String → Option String
  | [] => none
  | [name] => some name
  | _ => some "md0"

/-- The unit that formats one device, or stripes several. -/
def formatting : List String → Option CloudUnit
  | [] => none
  | [name] => some (formatUnit name)
  | names => some (stripeUnit "md0" names)

/-- The mounts that are disabled in the Ubuntu flavor. -/
def disabled (s : SystemConfig) (names : List String) : List (List String) :=
  match s.flavor, names with
  | .flatcar, _ | .ubuntu, [] => []
  | .ubuntu, [name] => [[name]]
  | .ubuntu, names => ["md0"] :: names.map ([·])

/-- The config formats exactly the devices `names`, in order, mounts them, and has no units
and mounts besides those of every config and those of the user. -/
structure Uses (s : SystemConfig) (c : CloudConfig) (names : List String) : Prop where
  units : c.units = (baseConfig s).units ++ (formatting names).toList ++
    ((dataDevice names).map mountUnit).toList ++ s.additionalUnits ++
    [updateSysctl s, bootmachine s (names ≠ [])]
  mounts : c.mounts = disabled s names

theorem foldl_appendMount (c : CloudConfig) (devices : List String) :
    devices.foldl (fun c dev => c.appendMount [dev]) c =
      { c with mounts := c.mounts ++ devices.map ([·]) } := by
  induction devices generalizing c with
  | nil => simp
  | cons dev devices ih =>
    rw [List.foldl_cons, ih]
    simp [CloudConfig.appendMount]

theorem foldl_appendFile (c : CloudConfig) (fs : List CloudFile) :
    fs.foldl CloudConfig.appendFile c = { c with writeFiles := c.writeFiles ++ fs } := by
  induction fs generalizing c with
  | nil => simp
  | cons f fs ih => simp [ih, CloudConfig.appendFile]

theorem foldl_appendUnit (c : CloudConfig) (us : List CloudUnit) :
    us.foldl CloudConfig.appendUnit c = { c with units := c.units ++ us } := by
  induction us generalizing c with
  | nil => simp
  | cons u us ih => simp [ih, CloudConfig.appendUnit]

theorem addServices_units (s : SystemConfig) (c : CloudConfig) (data : Bool) :
    (addServices s c data).units =
      c.units ++ s.additionalUnits ++ [updateSysctl s, bootmachine s data] := by
  simp [addServices, foldl_appendFile, foldl_appendUnit, CloudConfig.appendFile,
    CloudConfig.appendUnit]

theorem addServices_mounts (s : SystemConfig) (c : CloudConfig) (data : Bool) :
    (addServices s c data).mounts = c.mounts := by
  simp [addServices, foldl_appendFile, foldl_appendUnit, CloudConfig.appendFile,
    CloudConfig.appendUnit]

theorem addServices_writeFiles (s : SystemConfig) (c : CloudConfig) (data : Bool) :
    (addServices s c data).writeFiles = c.writeFiles ++ [sysctlFile] ++ s.additionalFiles ++
      [bootmachineFile s, authorityFile s] := by
  simp [addServices, foldl_appendFile, foldl_appendUnit, CloudConfig.appendFile,
    CloudConfig.appendUnit]

/-- Every config has the files of the program and of the authority. -/
theorem cloudConfig_writeFiles {s : SystemConfig} {c : CloudConfig} (h : cloudConfig s = .ok c) :
    ∃ fs, c.writeFiles = fs ++ [bootmachineFile s, authorityFile s] := by
  unfold cloudConfig at h
  split at h
  · cases h
  · cases h
    exact ⟨_, addServices_writeFiles s _ _⟩

theorem mountData_eq (s : SystemConfig) (c : CloudConfig) {name : String} (h : name ≠ "")
    (devices : List String) : mountData s c name devices =
      { c with
        units := c.units ++ [mountUnit name]
        mounts := c.mounts ++
          if s.flavor = .ubuntu then [name] :: devices.map ([·]) else [] } := by
  unfold mountData
  rw [if_pos h]
  split
  · rw [foldl_appendMount]
    simp [CloudConfig.appendMount, CloudConfig.appendUnit]
  · simp [CloudConfig.appendUnit]

theorem baseConfig_mounts (s : SystemConfig) : (baseConfig s).mounts = [] := by
  unfold baseConfig
  split <;> rfl

/-- The names that the source gives to `n` devices. -/
def deviceNames (s : SystemConfig) (n : Nat) : List String :=
  (List.range n).map fun i =>
    if s.nvme then "nvme" ++ toString (i + 1) ++ "n1" else "xvd" ++ letter i

theorem deviceNames_one (s : SystemConfig) :
    deviceNames s 1 = [if s.nvme then "nvme1n1" else "xvdb"] := by
  cases h : s.nvme <;> simp [deviceNames, h] <;> decide

theorem uses_of_two {s : SystemConfig} {names : List String} (hn : 2 ≤ names.length) :
    formatting names = some (stripeUnit "md0" names) ∧ dataDevice names = some "md0" ∧
      disabled s names = if s.flavor = .ubuntu then ["md0"] :: names.map ([·]) else [] := by
  match names with
  | [] | [_] => simp at hn
  | a :: b :: rest =>
    refine ⟨rfl, rfl, ?_⟩
    cases hf : s.flavor <;> simp [disabled, hf]

section

variable {s : SystemConfig} {n : Nat} (h : (sliceConfig s.dataspace).1.toInt = n)

include h

theorem nslice_eq_iff (k : Nat) (hk : (Int64.ofNat k).toInt = k) :
    (sliceConfig s.dataspace).1 = Int64.ofNat k ↔ n = k := by
  rw [← Int64.toInt_inj, h, hk]
  exact Nat.cast_inj

/-- The switch, when there is a volume. -/
theorem formatData_of_pos (hn : 0 < n) (c : CloudConfig) : ∃ unit name devices,
    formatData s c = .ok (c.appendUnit unit, name, devices) ∧ name ≠ "" ∧
    formatting (deviceNames s n) = some unit ∧ dataDevice (deviceNames s n) = some name ∧
    disabled s (deviceNames s n) =
      if s.flavor = .ubuntu then [name] :: devices.map ([·]) else [] := by
  have h0 : (sliceConfig s.dataspace).1 = 0 ↔ n = 0 := nslice_eq_iff h 0 rfl
  have h1 : (sliceConfig s.dataspace).1 = 1 ↔ n = 1 := nslice_eq_iff h 1 rfl
  have hne : (sliceConfig s.dataspace).1 ≠ 0 := fun hz => hn.ne' (h0.mp hz)
  by_cases hone : n = 1
  · subst hone
    refine ⟨formatUnit (if s.nvme then "nvme1n1" else "xvdb"),
      if s.nvme then "nvme1n1" else "xvdb", [], ?_, by split <;> decide, ?_⟩
    · simp only [formatData, hne, h1, if_true, if_false]
    · rw [deviceNames_one]
      refine ⟨rfl, rfl, ?_⟩
      cases hf : s.flavor <;> simp [disabled, hf]
  · have hne1 : (sliceConfig s.dataspace).1 ≠ 1 := fun hz => hone (h1.mp hz)
    have hnonneg : ¬ ((n : Int) < 0) := by omega
    have htwo : 2 ≤ (deviceNames s n).length := by
      simp only [deviceNames, List.length_map, List.length_range]
      omega
    refine ⟨stripeUnit "md0" (deviceNames s n), "md0", deviceNames s n, ?_, by decide,
      uses_of_two htwo⟩
    simp only [formatData, hne, hne1, hnonneg, if_false, h, Int.toNat_natCast, deviceNames]

/-- With `n` volumes the config uses `n` devices. -/
theorem cloudConfig_uses : ∃ c, cloudConfig s = .ok c ∧ Uses s c (deviceNames s n) := by
  rcases Nat.eq_zero_or_pos n with rfl | hn
  · have h0 : (sliceConfig s.dataspace).1 = 0 := (nslice_eq_iff h 0 rfl).mpr rfl
    refine ⟨addServices s (baseConfig s) false, ?_, ?_, ?_⟩
    · simp [cloudConfig, formatData, h0, mountData]
    · simp [addServices_units, deviceNames, formatting, dataDevice]
    · rw [addServices_mounts, baseConfig_mounts]
      cases hf : s.flavor <;> simp [disabled, deviceNames, hf]
  · obtain ⟨unit, name, devices, hformat, hname, hunit, hdata, hmounts⟩ :=
      formatData_of_pos h hn (baseConfig s)
    have hnames : deviceNames s n ≠ [] := by
      intro hnil
      rw [hnil] at hdata
      cases hdata
    refine ⟨addServices s (mountData s ((baseConfig s).appendUnit unit) name devices) true,
      ?_, ?_, ?_⟩
    · simp [cloudConfig, hformat, hname]
    · rw [addServices_units, mountData_eq _ _ hname, hunit, hdata]
      simp [CloudConfig.appendUnit, hnames]
    · rw [addServices_mounts, mountData_eq _ _ hname, hmounts]
      simp [CloudConfig.appendUnit, baseConfig_mounts]

end

theorem cloudConfig_panics {s : SystemConfig} (h : (sliceConfig s.dataspace).1.toInt < 0) :
    cloudConfig s = .error ⟨(sliceConfig s.dataspace).1⟩ := by
  have h0 : (sliceConfig s.dataspace).1 ≠ 0 := by
    intro hz
    rw [hz] at h
    exact absurd h (by decide)
  have h1 : (sliceConfig s.dataspace).1 ≠ 1 := by
    intro hz
    rw [hz] at h
    exact absurd h (by decide)
  simp only [cloudConfig, formatData, h0, h1, h, if_true, if_false]

/-! ## Agreement -/

/-- The names of the data volumes that `Start` requests. -/
def requested (s : SystemConfig) (rootDeviceName : Option String) : List String :=
  (blockDevices s rootDeviceName).tail.map BlockDevice.deviceName

def dataMounts (us : List CloudUnit) : Nat := us.countP (·.name = "mnt-data.mount")

/-- The config `c` uses the devices `names`, which are those that `Start` requests: by their
names, from `xvdb` to at most `xvdz`, or by their number on NVMe types. It mounts them if
there are any. -/
structure Agree (s : SystemConfig) (rootDeviceName : Option String) (c : CloudConfig)
    (names : List String) : Prop where
  config : cloudConfig s = .ok c
  uses : Uses s c names
  named : s.nvme = false → names.map ("/dev/" ++ ·) = requested s rootDeviceName ∧ names.Nodup ∧
    ∀ name ∈ names, ∃ x : Char, 'b' ≤ x ∧ x ≤ 'z' ∧ name = "xvd" ++ String.singleton x
  nvme : s.nvme = true → names = (List.range (requested s rootDeviceName).length).map fun i =>
    "nvme" ++ toString (i + 1) ++ "n1"
  mount : dataMounts c.units =
    dataMounts s.additionalUnits + if requested s rootDeviceName = [] then 0 else 1

theorem requested_eq (s : SystemConfig) (rootDeviceName : Option String) :
    requested s rootDeviceName =
      (List.range (sliceConfig s.dataspace).1.toInt.toNat).map fun i => "/dev/xvd" ++ letter i := by
  simp [requested, blockDevices]

/-- There are never more than 25 volumes. -/
theorem nslice_le (dataspace : UInt64) : (sliceConfig dataspace).1.toInt ≤ 25 := by
  obtain ⟨hr, hn, -⟩ | ⟨-, hn, -⟩ | ⟨-, hn, -⟩ | ⟨-, hn, -⟩ := sliceConfig_cases dataspace <;> omega

theorem letter_injective : ∀ i < 25, ∀ j < 25, letter i = letter j → i = j := by
  decide +kernel

theorem letter_range : ∀ i < 25, 'b' ≤ Char.ofNat ('b'.toNat + i) ∧
    Char.ofNat ('b'.toNat + i) ≤ 'z' := by
  decide

theorem deviceNames_nodup {s : SystemConfig} (hs : s.nvme = false) {n : Nat} (hn : n ≤ 25) :
    (deviceNames s n).Nodup := by
  simp only [deviceNames, hs, Bool.false_eq_true, if_false]
  refine List.Nodup.map_on ?_ List.nodup_range
  intro i hi j hj heq
  have hletter : letter i = letter j := by simpa using heq
  exact letter_injective i ((List.mem_range.mp hi).trans_le hn) j
    ((List.mem_range.mp hj).trans_le hn) hletter

theorem deviceNames_range {s : SystemConfig} (hs : s.nvme = false) {n : Nat} (hn : n ≤ 25) :
    ∀ name ∈ deviceNames s n,
      ∃ x : Char, 'b' ≤ x ∧ x ≤ 'z' ∧ name = "xvd" ++ String.singleton x := by
  intro name hmem
  simp only [deviceNames, hs, Bool.false_eq_true, if_false, List.mem_map, List.mem_range] at hmem
  obtain ⟨i, hi, rfl⟩ := hmem
  obtain ⟨hb, hz⟩ := letter_range i (hi.trans_le hn)
  exact ⟨_, hb, hz, rfl⟩

theorem format_ne_mount (name : String) : "format-" ++ name ++ ".service" ≠ "mnt-data.mount" := by
  intro h
  have hhead := congrArg (fun x => x.toList.head?) h
  simp at hhead

theorem dataMounts_uses {s : SystemConfig} {c : CloudConfig} {names : List String}
    (h : Uses s c names) :
    dataMounts c.units = dataMounts s.additionalUnits + if names = [] then 0 else 1 := by
  have hbase : dataMounts (baseConfig s).units = 0 := by
    unfold baseConfig
    split <;> rfl
  have hformat : dataMounts (formatting names).toList = 0 := by
    match names with
    | [] => rfl
    | [name] => simp [dataMounts, formatting, formatUnit, format_ne_mount]
    | _ :: _ :: _ => simp [dataMounts, formatting, stripeUnit]
  have hmount : dataMounts ((dataDevice names).map mountUnit).toList =
      if names = [] then 0 else 1 := by
    match names with
    | [] => rfl
    | [name] => rfl
    | _ :: _ :: _ => rfl
  have hrest : dataMounts [updateSysctl s, bootmachine s (names ≠ [])] = 0 := rfl
  have happend : ∀ us vs, dataMounts (us ++ vs) = dataMounts us + dataMounts vs := by
    intro us vs
    exact List.countP_append
  rw [h.units]
  simp only [happend, hbase, hformat, hmount, hrest]
  omega

/-- With `n` volumes the two functions agree. -/
theorem agree_of_nslice {s : SystemConfig} (rootDeviceName : Option String) {n : Nat}
    (h : (sliceConfig s.dataspace).1.toInt = n) :
    ∃ c, Agree s rootDeviceName c (deviceNames s n) := by
  obtain ⟨c, hc, huses⟩ := cloudConfig_uses h
  have hn : n ≤ 25 := by
    have hle := nslice_le s.dataspace
    omega
  have hreq : requested s rootDeviceName = (List.range n).map fun i => "/dev/xvd" ++ letter i := by
    rw [requested_eq, h, Int.toNat_natCast]
  refine ⟨c, hc, huses, fun hs => ⟨?_, deviceNames_nodup hs hn, deviceNames_range hs hn⟩, ?_, ?_⟩
  · rw [hreq, deviceNames, List.map_map]
    refine List.map_congr_left fun i _ => ?_
    have hpath : "/dev/" ++ "xvd" = "/dev/xvd" := rfl
    simp only [Function.comp_apply, hs, Bool.false_eq_true, if_false]
    rw [← String.append_assoc, hpath]
  · intro hs
    simp [hreq, deviceNames, hs]
  · have hnil : requested s rootDeviceName = [] ↔ deviceNames s n = [] := by
      simp [hreq, deviceNames]
    simp only [dataMounts_uses huses, hnil]

theorem nslice_nonneg_iff (dataspace : UInt64) :
    0 ≤ (sliceConfig dataspace).1.toInt ↔
      dataspace.toNat + 334 < 2 ^ 63 ∨ 2 ^ 64 - 668 ≤ dataspace.toNat := by
  obtain ⟨hr, hn, -⟩ | ⟨hr, hn, -⟩ | ⟨hr, hn, -⟩ | ⟨hr, hn, -⟩ := sliceConfig_cases dataspace <;>
    omega

/-- **Volumes requested and volumes formatted agree** exactly when the number of volumes is
not negative, that is unless the data space plus 334 exceeds the signed range, the last 668
values apart. -/
theorem volumes_agree_iff (s : SystemConfig) (rootDeviceName : Option String) :
    (∃ c names, Agree s rootDeviceName c names) ↔
      s.dataspace.toNat + 334 < 2 ^ 63 ∨ 2 ^ 64 - 668 ≤ s.dataspace.toNat := by
  rw [← nslice_nonneg_iff]
  constructor
  · rintro ⟨c, names, h⟩
    by_contra hneg
    have hconfig := h.config
    rw [cloudConfig_panics (not_le.mp hneg)] at hconfig
    cases hconfig
  · intro h
    obtain ⟨n, hn⟩ := Int.eq_ofNat_of_zero_le h
    obtain ⟨c, hc⟩ := agree_of_nslice rootDeviceName hn
    exact ⟨c, _, hc⟩

/-- A configured data space of -1000 gives -1 volumes. -/
theorem cloudConfig_negative_dataspace :
    let s : SystemConfig :=
      { flavor := .flatcar, dataspace := (-1000 : Int64).toUInt64, nvme := false }
    cloudConfig s = .error ⟨-1⟩ ∧ requested s none = [] ∧
      ¬ ∃ c names, Agree s none c names := by
  intro s
  have hpanic : cloudConfig s = .error ⟨-1⟩ := by decide +kernel
  refine ⟨hpanic, by decide +kernel, ?_⟩
  rintro ⟨c, names, h⟩
  have hconfig := h.config
  rw [hpanic] at hconfig
  cases hconfig

end Bigmachine.Ec2
