import Mathlib.Data.List.Sort
import Mathlib.Tactic

/-!
# The debug handlers

`B.HandleDebugPrefix` registers the profile index under a prefix that the caller chooses;
`B.pprofIndex` finds the name of the profile by trimming the prefix of the default registration off
the path of the request. So a request under another prefix is taken for one for a profile that is
named by its whole path (`respond_eq_page_iff`, `other_base`).

The multiplexer is `http.ServeMux`: a pattern that ends in a slash names a subtree, the longest
pattern wins, and a path that is not clean is redirected. What it means to be clean is a parameter.
-/

namespace Bigmachine.Debug

/-! ## Strings -/

/-- `strings.HasPrefix`. -/
def startsWith (s p : String) : Bool := p.toList.isPrefixOf s.toList

/-- `strings.TrimPrefix`. -/
def trimPrefix (s p : String) : String :=
  if startsWith s p then String.ofList (s.toList.drop p.toList.length) else s

/-! ## The multiplexer -/

inductive Handler
  | pprofIndex
  | status
  deriving DecidableEq, Repr

structure ServeMux where
  routes : List (String × Handler) := []

namespace ServeMux

def handle (mux : ServeMux) (pattern : String) (h : Handler) : ServeMux :=
  ⟨mux.routes ++ [(pattern, h)]⟩

/-- Some pattern begins with a host. -/
def hosts (mux : ServeMux) : Bool := mux.routes.any fun r => !startsWith r.1 "/"

/-- The pattern names a subtree that has the path in it. -/
def subtree (path : String) (r : String × Handler) : Bool :=
  r.1.toList.getLast? = some '/' && startsWith path r.1

def find (mux : ServeMux) (path : String) : Option Handler :=
  match mux.routes.lookup path with
  | some h => some h
  | none =>
    let longest := (mux.routes.filter (subtree path)).insertionSort
      fun r r' => r'.1.length ≤ r.1.length
    longest.head?.map (·.2)

def handler (mux : ServeMux) (host path : String) : Option Handler :=
  match if mux.hosts then mux.find (host ++ path) else none with
  | some h => some h
  | none => mux.find path

/-- Only the subtree with the name of the path is registered. -/
def shouldRedirect (mux : ServeMux) (host path : String) : Bool :=
  let p := [path, host ++ path]
  !p.any (fun c => (mux.routes.lookup c).isSome) &&
    p.any (fun c => (mux.routes.lookup (c ++ "/")).isSome) &&
    path.toList.getLast?.any (· ≠ '/')

end ServeMux

/-! ## The handlers -/

def handleDebugPrefix (base : String) (mux : ServeMux) : ServeMux :=
  (mux.handle (base ++ "pprof/") .pprofIndex).handle (base ++ "status") .status

def defaultBase : String := "/debug/bigmachine/"

inductive Response
  | redirect (path : String)
  | notFound
  | status
  | index
  | profile (which : String)
  deriving DecidableEq, Repr

def pprofIndex (path : String) : Response :=
  let which := trimPrefix path "/debug/bigmachine/pprof/"
  if which ≠ "" then .profile which else .index

def respond (clean : String → String) (mux : ServeMux) (host path : String) : Response :=
  if mux.shouldRedirect host (clean path) then .redirect (clean path ++ "/")
  else if clean path ≠ path then .redirect (clean path)
  else
    match mux.handler host path with
    | some .pprofIndex => pprofIndex path
    | some .status => .status
    | none => .notFound

/-- The page that is asked for: the profile of the given name, or the index. -/
def page (name : String) : Response := if name ≠ "" then .profile name else .index

/-! ## Trimming -/

theorem startsWith_append (p s : String) : startsWith (p ++ s) p = true := by
  simp [startsWith]

/-- Trimming `d ++ mid` off a path under `base` leaves the rest only if `base` is `d`. -/
theorem trimPrefix_eq_iff (base mid name d : String) (hmid : mid ≠ "") :
    trimPrefix (base ++ mid ++ name) (d ++ mid) = name ↔ base = d := by
  constructor
  · intro h
    unfold trimPrefix at h
    split at h
    · rename_i hstarts
      obtain ⟨t, ht⟩ := List.isPrefixOf_iff_prefix.mp hstarts
      rw [← ht, List.drop_left] at h
      have hname : t = name.toList := by rw [← h, String.toList_ofList]
      rw [hname] at ht
      simp only [String.toList_append, List.append_cancel_right_eq] at ht
      exact (String.toList_inj.mp ht).symm
    · have hlen := congrArg String.length h
      have hpos : 0 < mid.length :=
        Nat.pos_of_ne_zero fun h => hmid (String.length_eq_zero_iff.mp h)
      simp only [String.length_append] at hlen
      omega
  · rintro rfl
    rw [trimPrefix, if_pos (startsWith_append _ _)]
    simp

/-- A page is neither a redirect nor an error. -/
theorem eq_page_cases {r : Response} {name : String} (h : r = page name) :
    r = .index ∨ r = .profile name := by
  rw [h, page]
  split
  · exact Or.inr rfl
  · exact Or.inl rfl

theorem page_injective : Function.Injective page := by
  intro a b h
  unfold page at h
  split at h <;> split at h
  · exact Response.profile.inj h
  · cases h
  · cases h
  · simp_all

theorem pprofIndex_eq_page_iff (base name : String) :
    pprofIndex (base ++ "pprof/" ++ name) = page name ↔ base = defaultBase := by
  rw [← trimPrefix_eq_iff base "pprof/" name defaultBase (by decide)]
  exact page_injective.eq_iff

/-! ## The default registration -/

theorem lookup_of_longer {routes : List (String × Handler)} {c : String}
    (h : ∀ r ∈ routes, r.1.length < c.length) : routes.lookup c = none := by
  rw [List.lookup_eq_none_iff]
  intro r hr
  have hne : c ≠ r.1 := fun heq => (h r hr).ne (congrArg String.length heq).symm
  simpa using hne

def defaultMux : ServeMux := handleDebugPrefix defaultBase {}

theorem defaultMux_routes :
    defaultMux.routes =
      [(defaultBase ++ "pprof/", .pprofIndex), (defaultBase ++ "status", .status)] :=
  rfl

theorem defaultMux_longer {c : String} (h : 24 < c.length) : defaultMux.routes.lookup c = none := by
  refine lookup_of_longer fun r hr => ?_
  rw [defaultMux_routes] at hr
  rcases List.mem_pair.mp hr with rfl | rfl <;> exact h

theorem defaultMux_path_length (name : String) :
    (defaultBase ++ "pprof/" ++ name).length = 24 + name.length := by
  rw [String.length_append]
  rfl

theorem defaultMux_find (name : String) :
    defaultMux.find (defaultBase ++ "pprof/" ++ name) = some .pprofIndex := by
  by_cases hname : name = ""
  · subst hname
    decide
  · have hpos : 0 < name.length :=
      Nat.pos_of_ne_zero fun h => hname (String.length_eq_zero_iff.mp h)
    have hlen := defaultMux_path_length name
    have hpprof : ServeMux.subtree (defaultBase ++ "pprof/" ++ name)
        (defaultBase ++ "pprof/", .pprofIndex) = true := by
      rw [ServeMux.subtree, startsWith_append, Bool.and_true]
      decide
    have hfilter : defaultMux.routes.filter (ServeMux.subtree (defaultBase ++ "pprof/" ++ name)) =
        [(defaultBase ++ "pprof/", .pprofIndex)] := by
      rw [defaultMux_routes, List.filter_cons_of_pos hpprof]
      rfl
    unfold ServeMux.find
    rw [defaultMux_longer (by omega), hfilter]
    rfl

theorem defaultMux_handler (host name : String) :
    defaultMux.handler host (defaultBase ++ "pprof/" ++ name) = some .pprofIndex := by
  have hhosts : defaultMux.hosts = false := by decide
  rw [ServeMux.handler, hhosts]
  exact defaultMux_find name

/-- A subtree with the name of the path would have a longer pattern. -/
theorem defaultMux_shouldRedirect (host name : String) :
    defaultMux.shouldRedirect host (defaultBase ++ "pprof/" ++ name) = false := by
  have hlen := defaultMux_path_length name
  have hslash : "/".length = 1 := rfl
  have hpath : defaultMux.routes.lookup (defaultBase ++ "pprof/" ++ name ++ "/") = none :=
    defaultMux_longer (by rw [String.length_append, hlen, hslash]; omega)
  have hhost : defaultMux.routes.lookup
      (host ++ (defaultBase ++ "pprof/" ++ name) ++ "/") = none :=
    defaultMux_longer (by rw [String.length_append, String.length_append, hlen, hslash]; omega)
  simp [ServeMux.shouldRedirect, hpath, hhost]

/-- **Debug handlers under a prefix.** A request for the profile `name`, or for the index when the
name is empty, under the given prefix is answered as such, if and only if the prefix is the default
one and the path is clean. -/
theorem respond_eq_page_iff (clean : String → String) (host base name : String) :
    respond clean (handleDebugPrefix base {}) host (base ++ "pprof/" ++ name) = page name ↔
      base = defaultBase ∧ clean (base ++ "pprof/" ++ name) = base ++ "pprof/" ++ name := by
  constructor
  · intro h
    unfold respond at h
    split at h
    · rcases eq_page_cases h with hr | hr <;> cases hr
    · split at h
      · rcases eq_page_cases h with hr | hr <;> cases hr
      · rename_i hclean
        refine ⟨?_, not_not.mp hclean⟩
        split at h
        · exact (pprofIndex_eq_page_iff base name).mp h
        · rcases eq_page_cases h with hr | hr <;> cases hr
        · rcases eq_page_cases h with hr | hr <;> cases hr
  · rintro ⟨rfl, hclean⟩
    rw [respond, hclean, ← defaultMux, defaultMux_shouldRedirect, if_neg Bool.false_ne_true,
      if_neg (not_not.mpr rfl), defaultMux_handler]
    exact (pprofIndex_eq_page_iff _ name).mpr rfl

/-- The handlers are registered under another prefix, and the heap profile is asked for. -/
theorem other_base :
    ¬ ∀ (clean : String → String) (host base name : String),
      clean (base ++ "pprof/" ++ name) = base ++ "pprof/" ++ name →
      respond clean (handleDebugPrefix base {}) host (base ++ "pprof/" ++ name) = page name := by
  intro h
  have hheap := h id "localhost" "/cluster/" "heap" rfl
  have hwhole : respond id (handleDebugPrefix "/cluster/" {}) "localhost" "/cluster/pprof/heap" =
      .profile "/cluster/pprof/heap" := by decide +kernel
  exact absurd (hwhole.symm.trans hheap) (by decide)

end Bigmachine.Debug
