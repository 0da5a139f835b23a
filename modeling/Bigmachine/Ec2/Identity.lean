import Bigmachine.Ec2.Start
import Bigmachine.Rpc.Addressing

/-!
# Addresses that name an instance

The address of a machine that `Start` returns ends with the id of the instance, and the server of
an instance strips its own id off the path of every request (`http.StripPrefix`) before the
multiplexer of `B.run` looks at it. A public address may be given to another instance later, while
a driver still calls the machine that had it.

A call made for an instance reaches the RPC server of an instance exactly when the two are the same,
and then the server finds the service and the method that were called (`call_reaches_iff`). Any
other instance answers that there is no such page, or, when its id is the beginning of the other,
with a redirect. The client follows it with a `GET`, for which the RPC server calls no method.
-/

namespace Bigmachine.Ec2.Identity

open Rpc

/-! ## Serving a path -/

def rpcPrefix : List Char := "/bigrpc/".toList

/-- An element of a rooted path in `path.Clean`, given the elements before it. -/
def push (elems : List (List Char)) (elem : List Char) : List (List Char) :=
  if elem = [] ∨ elem = ['.'] then elems
  else if elem = ['.', '.'] then elems.dropLast
  else elems ++ [elem]

/-- `cleanPath` of package net/http. -/
def cleanPath (p : List Char) : List Char :=
  if p = [] then ['/']
  else
    let p := if p.head? = some '/' then p else '/' :: p
    let np := '/' :: List.intercalate ['/'] ((p.splitOn '/').foldl push [])
    if p.getLast? = some '/' ∧ np ≠ ['/'] then np ++ ['/'] else np

/-- A request is passed to `Server.ServeHTTP`, or answered with a redirect or an error. -/
inductive Routed
  | rpc (path : List Char)
  | redirect (path : List Char)
  | notFound
  deriving DecidableEq, Repr

/-- The multiplexer of `B.run`, with its one pattern. -/
def mux (path : List Char) : Routed :=
  if cleanPath path ++ ['/'] = rpcPrefix then .redirect rpcPrefix
  else if cleanPath path ≠ path then .redirect (cleanPath path)
  else if rpcPrefix.isPrefixOf path then .rpc path
  else .notFound

/-- The handler that `ListenAndServe` serves on the instance `instanceID`. -/
def listenAndServe (instanceID : String) (path : List Char) : Routed :=
  if ('/' :: instanceID.toList).isPrefixOf path then mux (path.drop (instanceID.length + 1))
  else .notFound

/-- The request that gets to the RPC server of `instanceID` when the client follows up to `n`
redirects. -/
def follow (instanceID : String) : Nat → String → List Char → Option (String × List Char)
  | 0, _, _ => none
  | n + 1, method, path =>
    match listenAndServe instanceID path with
    | .rpc p => some (method, p)
    -- after the status 301 a request other than `HEAD` is repeated as a `GET`
    | .redirect p => follow instanceID n "GET" p
    | .notFound => none

/-- The path of a URL that has a scheme, when nothing in it is escaped. -/
def urlPath (url : String) : List Char :=
  ((url.toList.drop "https://".length).dropWhile fun c => c ≠ '/' ∧ c ≠ '?' ∧ c ≠ '#').takeWhile
    fun c => c ≠ '?' ∧ c ≠ '#'

/-- The path of a call of the method `serviceMethod` on the machine of the instance `i`. -/
def callPath (cfg : Config) (i : Instance) (serviceMethod : String) : List Char :=
  urlPath (Client.url "/bigrpc/" (machine cfg i).addr serviceMethod)

/-! ## The path of a call -/

/-- The string is one element of a URL, as it is. -/
structure Element (s : String) : Prop where
  ne_empty : s ≠ ""
  plain : ∀ c ∈ s.toList, c ≠ '/' ∧ c ≠ '?' ∧ c ≠ '#' ∧ c ≠ '%'

instance (s : String) : Decidable (Element s) :=
  decidable_of_iff
    (s ≠ "" ∧ (s.toList.all fun c => c ≠ '/' ∧ c ≠ '?' ∧ c ≠ '#' ∧ c ≠ '%') = true)
    ⟨fun h => ⟨h.1, by simpa using h.2⟩, fun h => ⟨h.ne_empty, by simpa using h.plain⟩⟩

theorem Element.slash_not_mem {s : String} (h : Element s) : '/' ∉ s.toList :=
  fun hmem => (h.plain _ hmem).1 rfl

theorem Element.toList_ne_nil {s : String} (h : Element s) : s.toList ≠ [] := by
  intro hnil
  exact h.ne_empty (String.toList_inj.mp hnil)

/-- `strings.TrimRight(s, "/")` of an address. -/
theorem trimRight_slash {l : List Char} (h : l.getLast? ≠ some '/') :
    ((l ++ ['/']).reverse.dropWhile (· = '/')).reverse = l := by
  rw [List.reverse_append, List.reverse_singleton, List.singleton_append,
    List.dropWhile_cons_of_pos (by simp)]
  cases hl : l.reverse with
  | nil => simpa using hl
  | cons c cs =>
    have hc : c ≠ '/' := by
      rintro rfl
      rw [List.getLast?_eq_head?_reverse, hl] at h
      exact h rfl
    rw [List.dropWhile_cons_of_neg (by simpa using hc), ← hl, List.reverse_reverse]

theorem append_shift (a b c d e : List Char) :
    a ++ b ++ ('/' :: c) ++ d ++ e = a ++ (b ++ '/' :: (c ++ d ++ e)) := by
  simp

theorem url_toList {base addr serviceMethod : String} {l : List Char}
    (haddr : addr.toList = l ++ ['/']) (h : l.getLast? ≠ some '/') :
    (Client.url base addr serviceMethod).toList = l ++ base.toList ++ serviceMethod.toList := by
  rw [Client.url, String.toList_append, String.toList_append, String.toList_ofList, haddr,
    trimRight_slash h]

theorem rpcPrefix_eq : rpcPrefix = '/' :: ['b', 'i', 'g', 'r', 'p', 'c'] ++ ['/'] := by decide

/-- No query and no fragment begins in the path of a call. -/
theorem plain_path {id serviceMethod : String} (hi : Element id) (hsm : Element serviceMethod) :
    ∀ c ∈ '/' :: (id.toList ++ rpcPrefix ++ serviceMethod.toList),
      decide (c ≠ '?' ∧ c ≠ '#') = true := by
  intro c hc
  rw [List.mem_cons, List.mem_append, List.mem_append] at hc
  rw [decide_eq_true_eq]
  rcases hc with rfl | (hc | hc) | hc
  · decide
  · exact ⟨(hi.plain c hc).2.1, (hi.plain c hc).2.2.1⟩
  · rw [rpcPrefix_eq] at hc
    simp only [List.cons_append, List.nil_append, List.mem_cons, List.not_mem_nil, or_false] at hc
    rcases hc with rfl | rfl | rfl | rfl | rfl | rfl | rfl | rfl <;> decide
  · exact ⟨(hsm.plain c hc).2.1, (hsm.plain c hc).2.2.1⟩

theorem callPath_eq {cfg : Config} (hcfg : cfg.useInstanceIDSuffix = true) {i : Instance}
    {id serviceMethod : String} (hid : i.instanceId = some id)
    (hhost : ∀ c ∈ (getAddress i).toList, c ≠ '/' ∧ c ≠ '?' ∧ c ≠ '#') (hi : Element id)
    (hsm : Element serviceMethod) :
    callPath cfg i serviceMethod =
      '/' :: (id.toList ++ rpcPrefix ++ serviceMethod.toList) := by
  have haddr : (machine cfg i).addr.toList =
      "https://".toList ++ (getAddress i).toList ++ ('/' :: id.toList) ++ ['/'] := by
    simp only [machine, hcfg, hid, if_true, Option.getD_some, String.toList_append,
      List.append_assoc]
    rfl
  have hlast : ("https://".toList ++ (getAddress i).toList ++ ('/' :: id.toList)).getLast? ≠
      some '/' := by
    obtain ⟨cs, c, hc⟩ := (List.eq_nil_or_concat' id.toList).resolve_left hi.toList_ne_nil
    have hne : '/' ∉ cs ++ [c] := hc ▸ hi.slash_not_mem
    rw [List.mem_append, List.mem_singleton, not_or] at hne
    rw [hc, ← List.cons_append, ← List.append_assoc, List.getLast?_concat]
    exact fun heq => hne.2 (Option.some.inj heq).symm
  have hurl : (Client.url "/bigrpc/" (machine cfg i).addr serviceMethod).toList =
      "https://".toList ++ ((getAddress i).toList ++
        '/' :: (id.toList ++ rpcPrefix ++ serviceMethod.toList)) := by
    rw [url_toList haddr hlast]
    exact append_shift _ _ _ _ _
  have hscheme : "https://".length = "https://".toList.length := rfl
  rw [callPath, urlPath, hurl, hscheme, List.drop_left, List.dropWhile_append_of_pos,
    List.dropWhile_cons_of_neg (by simp), List.takeWhile_eq_self_iff.mpr (plain_path hi hsm)]
  exact fun c hc => decide_eq_true (hhost c hc)

/-! ## Cleaning -/

theorem head?_cleanPath (p : List Char) : (cleanPath p).head? = some '/' := by
  unfold cleanPath
  dsimp only
  split
  · rfl
  · split_ifs <;> rfl

/-- The path of a call is clean. -/
theorem cleanPath_rpc {s : String} (hs : Element s) (hdot : s.toList ≠ ['.'])
    (hdots : s.toList ≠ ['.', '.']) :
    cleanPath (rpcPrefix ++ s.toList) = rpcPrefix ++ s.toList := by
  have hjoin : rpcPrefix ++ s.toList =
      List.intercalate ['/'] [[], ['b', 'i', 'g', 'r', 'p', 'c'], s.toList] := by
    rw [rpcPrefix_eq]
    simp [List.intercalate]
  have hsplit : (rpcPrefix ++ s.toList).splitOn '/' =
      [[], ['b', 'i', 'g', 'r', 'p', 'c'], s.toList] := by
    rw [hjoin]
    refine List.splitOn_intercalate '/' ?_ (by simp)
    intro l hl
    simp only [List.mem_cons, List.not_mem_nil, or_false] at hl
    rcases hl with rfl | rfl | rfl
    · simp
    · decide
    · exact hs.slash_not_mem
  have hlast : (rpcPrefix ++ s.toList).getLast? ≠ some '/' := by
    obtain ⟨cs, c, hc⟩ := (List.eq_nil_or_concat' s.toList).resolve_left hs.toList_ne_nil
    have hne : '/' ∉ cs ++ [c] := hc ▸ hs.slash_not_mem
    rw [List.mem_append, List.mem_singleton, not_or] at hne
    rw [hc, ← List.append_assoc, List.getLast?_concat]
    exact fun heq => hne.2 (Option.some.inj heq).symm
  have hpush : ((rpcPrefix ++ s.toList).splitOn '/').foldl push [] =
      [['b', 'i', 'g', 'r', 'p', 'c'], s.toList] := by
    rw [hsplit]
    simp [push, hs.toList_ne_nil, hdot, hdots]
  have hhead : (rpcPrefix ++ s.toList).head? = some '/' := by
    rw [rpcPrefix_eq]
    rfl
  have hne : rpcPrefix ++ s.toList ≠ [] := by
    rw [rpcPrefix_eq]
    exact List.cons_ne_nil _ _
  unfold cleanPath
  simp only [hne, hhead, hpush, hlast, if_true, if_false, false_and]
  rw [rpcPrefix_eq]
  simp [List.intercalate]

/-- A path that does not begin with a slash is not served. -/
theorem mux_of_head_ne {path : List Char} (h : path.head? ≠ some '/') (p : List Char) :
    mux path ≠ .rpc p := by
  have hne : cleanPath path ≠ path := by
    intro heq
    exact h (heq ▸ head?_cleanPath path)
  unfold mux
  rw [if_pos hne]
  split <;> simp

theorem mux_rpc {s : String} (hs : Element s) (hdot : s.toList ≠ ['.'])
    (hdots : s.toList ≠ ['.', '.']) :
    mux (rpcPrefix ++ s.toList) = .rpc (rpcPrefix ++ s.toList) := by
  have hclean := cleanPath_rpc hs hdot hdots
  have hlong : rpcPrefix ++ s.toList ++ ['/'] ≠ rpcPrefix := by
    intro heq
    have hlen := congrArg List.length heq
    simp only [List.length_append, List.length_singleton] at hlen
    omega
  rw [mux, hclean, if_neg hlong, if_neg (not_not_intro rfl), if_pos]
  exact List.isPrefixOf_iff_prefix.mpr (List.prefix_append _ _)

/-! ## Which instance serves a call -/

/-- An element at the beginning of a path is at the beginning of its first element. -/
theorem prefix_of_prefix_append {a b rest : List Char} (ha : '/' ∉ a) (h : a <+: b ++ '/' :: rest) :
    a <+: b := by
  rcases List.prefix_or_prefix_of_prefix h (List.prefix_append b ('/' :: rest)) with hab | hba
  · exact hab
  · obtain ⟨c, rfl⟩ := hba
    have hc := (List.prefix_append_right_inj b).mp h
    cases c with
    | nil => simp
    | cons x c =>
      obtain ⟨rfl, -⟩ := List.cons_prefix_cons.mp hc
      simp at ha

theorem listenAndServe_iff {id own : String} {s : String} (hid : Element id) (hown : Element own)
    (hs : Element s) (hdot : s.toList ≠ ['.']) (hdots : s.toList ≠ ['.', '.']) (p : List Char) :
    listenAndServe own ('/' :: (id.toList ++ rpcPrefix ++ s.toList)) = .rpc p ↔
      id = own ∧ p = rpcPrefix ++ s.toList := by
  have hlen : own.length + 1 = ('/' :: own.toList).length := by
    rw [List.length_cons, String.length_toList]
  constructor
  · intro h
    unfold listenAndServe at h
    split at h
    · rename_i hstrip
      have hprefix := (List.cons_prefix_cons.mp (List.isPrefixOf_iff_prefix.mp hstrip)).2
      have hrest : id.toList ++ rpcPrefix ++ s.toList =
          id.toList ++ '/' :: (['b', 'i', 'g', 'r', 'p', 'c'] ++ ['/'] ++ s.toList) := by
        rw [rpcPrefix_eq]
        simp
      rw [hrest] at hprefix
      obtain ⟨more, hmore⟩ := prefix_of_prefix_append hown.slash_not_mem hprefix
      rw [← hmore, List.append_assoc, List.append_assoc, ← List.cons_append, hlen,
        List.drop_left] at h
      cases more with
      | nil =>
        rw [List.append_nil] at hmore
        rw [List.nil_append, mux_rpc hs hdot hdots] at h
        exact ⟨(String.toList_inj.mp hmore).symm, (Routed.rpc.inj h).symm⟩
      | cons c more =>
        -- the id goes on: what is left of the path does not begin with a slash
        have hc : c ≠ '/' := by
          rintro rfl
          exact hid.slash_not_mem (hmore ▸ by simp)
        exact absurd h (mux_of_head_ne (by simpa using hc) p)
    · cases h
  · rintro ⟨rfl, rfl⟩
    have hstrip : ('/' :: id.toList).isPrefixOf ('/' :: (id.toList ++ rpcPrefix ++ s.toList)) =
        true := by
      rw [List.isPrefixOf_iff_prefix, List.append_assoc, ← List.cons_append]
      exact List.prefix_append _ _
    rw [listenAndServe, if_pos hstrip, List.append_assoc, ← List.cons_append, hlen, List.drop_left]
    exact mux_rpc hs hdot hdots

theorem element_serviceMethod {S M : String} (hS : Element S) (hM : Element M) :
    Element (S ++ "." ++ M) ∧ 3 ≤ (S ++ "." ++ M).toList.length := by
  have hSlen := List.length_pos_iff.mpr hS.toList_ne_nil
  have hMlen := List.length_pos_iff.mpr hM.toList_ne_nil
  have hlist : (S ++ "." ++ M).toList = S.toList ++ '.' :: M.toList := by simp
  have hlen : 3 ≤ (S ++ "." ++ M).toList.length := by
    rw [hlist, List.length_append, List.length_cons]
    omega
  refine ⟨⟨fun h => ?_, fun c hc => ?_⟩, hlen⟩
  · rw [h] at hlen
    simp at hlen
  · rw [hlist, List.mem_append, List.mem_cons] at hc
    rcases hc with hc | rfl | hc
    · exact hS.plain c hc
    · decide
    · exact hM.plain c hc

/-- A `GET` stays one. -/
theorem follow_get {own : String} {n : Nat} {path p : List Char} {method : String}
    (h : follow own n "GET" path = some (method, p)) : method = "GET" := by
  induction n generalizing path with
  | zero => cases h
  | succ n ih =>
    rw [follow] at h
    split at h
    · cases h
      rfl
    · exact ih h
    · cases h

/-- **Calls reach the instance they are made for.** A call of the method `M` of the service `S`,
made for the machine of the instance `id`, is passed on to the RPC server of the instance `own`
exactly when the two are the same instance; and then that server takes the service `S` and the
method `M` from the path. When they are not the same, whatever redirects the client follows, no
`POST` gets to the RPC server. -/
theorem call_reaches_iff (cfg : Config) (hcfg : cfg.useInstanceIDSuffix = true) (i : Instance)
    (id own S M : String) (hid : i.instanceId = some id)
    (hhost : ∀ c ∈ (getAddress i).toList, c ≠ '/' ∧ c ≠ '?' ∧ c ≠ '#') (hi : Element id)
    (hown : Element own) (hS : Element S) (hM : Element M) (hdot : '.' ∉ S.toList) :
    ((∃ path, listenAndServe own (callPath cfg i (S ++ "." ++ M)) = .rpc path) ↔ id = own) ∧
      (∀ path, listenAndServe own (callPath cfg i (S ++ "." ++ M)) = .rpc path →
        splitServiceMethod (pathBase (String.ofList path)) = some (S, M)) ∧
      ∀ n method path, follow own n "POST" (callPath cfg i (S ++ "." ++ M)) = some (method, path) →
        id = own ∨ method = "GET" := by
  obtain ⟨hsm, hlen⟩ := element_serviceMethod hS hM
  have hdot₁ : (S ++ "." ++ M).toList ≠ ['.'] := fun h => by simp [h] at hlen
  have hdot₂ : (S ++ "." ++ M).toList ≠ ['.', '.'] := fun h => by simp [h] at hlen
  have hiff := listenAndServe_iff hi hown hsm hdot₁ hdot₂
  rw [callPath_eq hcfg hid hhost hi hsm]
  refine ⟨⟨fun ⟨path, h⟩ => ((hiff path).mp h).1, fun h => ⟨_, (hiff _).mpr ⟨h, rfl⟩⟩⟩, ?_, ?_⟩
  · intro path hpath
    obtain ⟨-, rfl⟩ := (hiff path).mp hpath
    have hbase : (String.ofList (rpcPrefix ++ (S ++ "." ++ M).toList)).toList =
        '/' :: ['b', 'i', 'g', 'r', 'p', 'c'] ++ '/' :: (S ++ "." ++ M).toList := by
      rw [String.toList_ofList, rpcPrefix_eq, List.append_assoc]
      rfl
    have hlist : (S ++ "." ++ M).toList = S.toList ++ '.' :: M.toList := by simp
    rw [pathBase_of_eq hbase hsm.toList_ne_nil hsm.slash_not_mem, hlist,
      splitServiceMethod_of_eq hdot, String.ofList_toList, String.ofList_toList]
  · intro n method path hfollow
    cases n with
    | zero => cases hfollow
    | succ n =>
      rw [follow] at hfollow
      split at hfollow
      · rename_i p hp
        exact Or.inl ((hiff p).mp hp).1
      · exact Or.inr (follow_get hfollow)
      · cases hfollow

/-- The instance `i-2` has got the address of `i-1`. -/
theorem call_reaches_iff_host :
    (∃ path, listenAndServe "i-1"
      (callPath ⟨"ami-1", true, 4, true⟩ Reference.host "Supervisor.Ping") = .rpc path) ∧
    ¬ ∃ path, listenAndServe "i-2"
      (callPath ⟨"ami-1", true, 4, true⟩ Reference.host "Supervisor.Ping") = .rpc path := by
  have hhost : ((getAddress Reference.host).toList.all
      fun c => c ≠ '/' ∧ c ≠ '?' ∧ c ≠ '#') = true := by decide
  have hreach : ∀ own, Element own → ((∃ path, listenAndServe own
      (callPath ⟨"ami-1", true, 4, true⟩ Reference.host "Supervisor.Ping") = .rpc path) ↔
      "i-1" = own) := fun own hown =>
    (call_reaches_iff ⟨"ami-1", true, 4, true⟩ rfl Reference.host "i-1" own "Supervisor" "Ping" rfl
      (fun c hc => of_decide_eq_true (List.all_eq_true.mp hhost c hc)) (by decide) hown (by decide)
      (by decide) (by decide)).1
  refine ⟨(hreach "i-1" (by decide)).mpr rfl, fun h => ?_⟩
  exact absurd ((hreach "i-2" (by decide)).mp h) (by decide)

end Bigmachine.Ec2.Identity
