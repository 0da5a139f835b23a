import Bigmachine.Rpc.Client
import Mathlib.Data.List.TakeWhile

/-!
# Addressing: from a service method to the URL and back

`Client.Call` appends the name of the service method to the address and the prefix;
`ServeHTTP` takes the last element of the path and splits it at its first dot. Both scans are
described by what they find (`pathBase_of_eq`, `splitServiceMethod_of_eq`). Of a path that
ends in `S.M` the server finds the part of `S` after its last slash, up to its first dot
(`splitServiceMethod_url`). That name has neither dot nor slash, so it is `S` exactly when
`S` has neither (`addressing_round_trip`).
-/

namespace Bigmachine.Rpc

/-! ## The two scans -/

/-- A scan for `x` stops at `x`. -/
theorem eq_of_dropWhile_ne {x c : Char} {l d : List Char} (h : l.dropWhile (· ≠ x) = c :: d) :
    c = x := by
  have hne : l.dropWhile (· ≠ x) ≠ [] := by
    rw [h]
    exact List.cons_ne_nil c d
  have hhead := List.head_dropWhile_not _ hne
  simp only [h, List.head_cons] at hhead
  simpa using hhead

theorem pathBase_of_eq {path : String} {dir elem : List Char} (h : path.toList = dir ++ '/' :: elem)
    (helem : elem ≠ []) (hslash : '/' ∉ elem) : pathBase path = String.ofList elem := by
  have hne : path ≠ "" := by
    rintro rfl
    simp at h
  have hrev : path.toList.reverse = elem.reverse ++ '/' :: dir.reverse := by simp [h]
  have hhead : ∀ c ∈ elem.reverse, c ≠ '/' := by
    intro c hc hcs
    exact hslash (hcs ▸ List.mem_reverse.mp hc)
  -- there are no trailing slashes, and the last element ends at the slash before it
  have hdrop : path.toList.reverse.dropWhile (· = '/') = path.toList.reverse := by
    rw [hrev]
    cases hr : elem.reverse with
    | nil => exact absurd (List.reverse_eq_nil_iff.mp hr) helem
    | cons c cs =>
      have hc : c ≠ '/' := hhead c (by simp [hr])
      simp [hc]
  have htake : path.toList.reverse.takeWhile (· ≠ '/') = elem.reverse := by
    rw [hrev, List.takeWhile_append_of_pos (by simpa using hhead)]
    simp
  unfold pathBase
  rw [if_neg hne, hdrop, htake]
  split
  · rename_i hr
    exact absurd (List.reverse_eq_nil_iff.mp hr) helem
  · rw [List.reverse_reverse]

theorem splitServiceMethod_of_eq {service : List Char} (h : '.' ∉ service) (method : List Char) :
    splitServiceMethod (String.ofList (service ++ '.' :: method)) =
      some (String.ofList service, String.ofList method) := by
  have hall : ∀ c ∈ service, decide (c ≠ '.') = true := by
    intro c hc
    exact decide_eq_true fun hcd => h (hcd ▸ hc)
  unfold splitServiceMethod
  rw [String.toList_ofList, List.dropWhile_append_of_pos hall, List.takeWhile_append_of_pos hall]
  simp

/-! ## What the server finds -/

/-- The part of a service name that the server takes for the service: after the last slash,
up to the first dot. -/
def found (s : List Char) : List Char :=
  (s.reverse.takeWhile (· ≠ '/')).reverse.takeWhile (· ≠ '.')

theorem not_mem_found (s : List Char) : '.' ∉ found s ∧ '/' ∉ found s := by
  constructor
  · intro h
    simpa using List.mem_takeWhile_imp h
  · intro h
    have h' := List.mem_reverse.mp ((List.takeWhile_sublist _).subset h)
    simpa using List.mem_takeWhile_imp h'

theorem found_of_not_mem {s : List Char} (hdot : '.' ∉ s) (hslash : '/' ∉ s) : found s = s := by
  have hrev : s.reverse.takeWhile (· ≠ '/') = s.reverse := by
    rw [List.takeWhile_eq_self_iff]
    intro c hc
    exact decide_eq_true fun hcs => hslash (hcs ▸ List.mem_reverse.mp hc)
  unfold found
  rw [hrev, List.reverse_reverse, List.takeWhile_eq_self_iff]
  intro c hc
  exact decide_eq_true fun hcd => hdot (hcd ▸ hc)

/-- A slash and `s` end with a path element that begins after the last slash. -/
theorem exists_dir (dir s : List Char) :
    ∃ dir', dir ++ '/' :: s = dir' ++ '/' :: (s.reverse.takeWhile (· ≠ '/')).reverse := by
  have hsplit : s.reverse.takeWhile (· ≠ '/') ++ s.reverse.dropWhile (· ≠ '/') = s.reverse :=
    List.takeWhile_append_dropWhile
  have hs : s = (s.reverse.dropWhile (· ≠ '/')).reverse ++
      (s.reverse.takeWhile (· ≠ '/')).reverse := by
    rw [← List.reverse_append, hsplit, List.reverse_reverse]
  cases hd : s.reverse.dropWhile (· ≠ '/') with
  | nil =>
    rw [hd] at hs
    refine ⟨dir, ?_⟩
    rw [List.reverse_nil, List.nil_append] at hs
    rw [← hs]
  | cons c d =>
    rw [hd, eq_of_dropWhile_ne hd] at hs
    refine ⟨dir ++ '/' :: d.reverse, ?_⟩
    nth_rewrite 1 [hs]
    simp

/-- Cutting at the first dot, whether it is in the name or the one after it. -/
theorem splitServiceMethod_dotted (elem method : List Char) :
    ∃ rest, splitServiceMethod (String.ofList (elem ++ '.' :: method)) =
        some (String.ofList (elem.takeWhile (· ≠ '.')), String.ofList rest) ∧
      ('.' ∉ elem → rest = method) := by
  have hsplit : elem.takeWhile (· ≠ '.') ++ elem.dropWhile (· ≠ '.') = elem :=
    List.takeWhile_append_dropWhile
  have hfree : '.' ∉ elem.takeWhile (· ≠ '.') := by
    intro h
    simpa using List.mem_takeWhile_imp h
  cases hd : elem.dropWhile (· ≠ '.') with
  | nil =>
    rw [hd, List.append_nil] at hsplit
    refine ⟨method, ?_, fun _ => rfl⟩
    have hcut := splitServiceMethod_of_eq hfree method
    rw [hsplit] at hcut ⊢
    exact hcut
  | cons c d =>
    rw [hd, eq_of_dropWhile_ne hd] at hsplit
    refine ⟨d ++ '.' :: method, ?_, fun hno => absurd (hsplit ▸ by simp) hno⟩
    have hcut := splitServiceMethod_of_eq hfree (d ++ '.' :: method)
    rw [← hcut]
    congr 2
    nth_rewrite 1 [← hsplit]
    simp

/-- The service and the method that `ServeHTTP` takes from a path ending in `S.M`. -/
theorem splitServiceMethod_url (addr dir S M : String) (hslash : '/' ∉ M.toList) :
    ∃ method, splitServiceMethod (pathBase (Client.url (dir ++ "/") addr (S ++ "." ++ M))) =
        some (String.ofList (found S.toList), method) ∧
      ('.' ∉ S.toList → method = M) := by
  obtain ⟨dir', hdir⟩ := exists_dir
    ((addr.toList.reverse.dropWhile (· = '/')).reverse ++ dir.toList) S.toList
  have hpath : (Client.url (dir ++ "/") addr (S ++ "." ++ M)).toList =
      dir' ++ '/' :: ((S.toList.reverse.takeWhile (· ≠ '/')).reverse ++ '.' :: M.toList) := by
    have happ := congrArg (· ++ '.' :: M.toList) hdir
    simpa [Client.url] using happ
  have hfree : '/' ∉ (S.toList.reverse.takeWhile (· ≠ '/')).reverse ++ '.' :: M.toList := by
    intro h
    rcases List.mem_append.mp h with h | h
    · simpa using List.mem_takeWhile_imp (List.mem_reverse.mp h)
    · rcases List.mem_cons.mp h with h | h
      · cases h
      · exact hslash h
  obtain ⟨rest, hcut, hrest⟩ := splitServiceMethod_dotted
    (S.toList.reverse.takeWhile (· ≠ '/')).reverse M.toList
  refine ⟨String.ofList rest, ?_, fun hdot => ?_⟩
  · rw [pathBase_of_eq hpath (by simp) hfree, hcut]
    rfl
  · rw [hrest fun h => hdot ?_, String.ofList_toList]
    exact List.mem_reverse.mp ((List.takeWhile_sublist _).subset (List.mem_reverse.mp h))

/-! ## The round trip -/

theorem Server.register_services {α : Type} {s : Server α} {serviceName : String}
    (h : s.services serviceName = none) (iface : α) :
    (s.register serviceName iface).services serviceName = some iface := by
  simp [Server.register, h]

theorem Server.register_services_of_ne {α : Type} (s : Server α) {serviceName name : String}
    (h : name ≠ serviceName) (iface : α) :
    (s.register serviceName iface).services name = s.services name := by
  unfold Server.register
  split
  · rfl
  · exact Function.update_of_ne h _ _

/-- A registration under another name than the one in the path changes no answer. -/
theorem serveHTTP_register {T V : Type} (P : Errors.Package) (wire : Wire T V)
    (s : Server (Service T V)) {serviceName : String} (iface : Service T V) {r : Request}
    {service method : String}
    (hpath : splitServiceMethod (pathBase r.path) = some (service, method))
    (h : service ≠ serviceName) :
    serveHTTP P wire (s.register serviceName iface) r = serveHTTP P wire s r := by
  simp only [serveHTTP, hpath, s.register_services_of_ne h]

/-- **Addressing round trip.** From the URL that `Call` builds for the method `M` of the
service `S`, `ServeHTTP` takes the pair `(S, M)` exactly when `S` has neither dot nor slash.
Otherwise it takes another service name: a service registered as `S`, which `Register`
accepts, changes no answer to requests for it. -/
theorem addressing_round_trip (addr dir S M : String) (hslash : '/' ∉ M.toList) :
    ∃ service method,
      splitServiceMethod (pathBase (Client.url (dir ++ "/") addr (S ++ "." ++ M))) =
        some (service, method) ∧
      ((service, method) = (S, M) ↔ '.' ∉ S.toList ∧ '/' ∉ S.toList) ∧
      (¬ ('.' ∉ S.toList ∧ '/' ∉ S.toList) → service ≠ S ∧
        ∀ (T V : Type) (P : Errors.Package) (wire : Wire T V) (s : Server (Service T V))
          (iface : Service T V), s.services S = none →
          (s.register S iface).services S = some iface ∧
          ∀ r : Request, r.path = Client.url (dir ++ "/") addr (S ++ "." ++ M) →
            serveHTTP P wire (s.register S iface) r = serveHTTP P wire s r) := by
  obtain ⟨method, hpath, hmethod⟩ := splitServiceMethod_url addr dir S M hslash
  have hother : ¬ ('.' ∉ S.toList ∧ '/' ∉ S.toList) → String.ofList (found S.toList) ≠ S := by
    intro hS heq
    have hlist : found S.toList = S.toList := by
      rw [← String.toList_ofList (l := found S.toList), heq]
    have hfree := not_mem_found S.toList
    rw [hlist] at hfree
    exact hS hfree
  refine ⟨_, method, hpath, ⟨fun heq => ?_, fun hS => ?_⟩, fun hS => ⟨hother hS, ?_⟩⟩
  · by_contra hS
    exact hother hS (Prod.mk.inj heq).1
  · rw [found_of_not_mem hS.1 hS.2, String.ofList_toList, hmethod hS.1]
  · intro T V P wire s iface hfree
    refine ⟨Server.register_services hfree iface, fun r hr => ?_⟩
    exact serveHTTP_register P wire s iface (hr ▸ hpath) (hother hS)

theorem addressing_round_trip_supervisor :
    ('/' ∉ "Ping".toList) ∧
      splitServiceMethod (pathBase (Client.url "/bigrpc/" "https://host//" "Supervisor.Ping")) =
        some ("Supervisor", "Ping") := by
  have hslash : '/' ∉ "Ping".toList := by decide
  obtain ⟨service, method, hpath, hiff, -⟩ :=
    addressing_round_trip "https://host//" "/bigrpc" "Supervisor" "Ping" hslash
  have hpair := hiff.mpr (by decide)
  exact ⟨hslash, hpair ▸ hpath⟩

end Bigmachine.Rpc
