import Trstctl.Go.Calendar

/-!
# The cache of OCSP responses

`internal/server/ocsp_cache.go`: a map of responses beside a heap of the same
entries by the instant they expire.  `container/heap` keeps the soonest of them
at the root, so the heap is modelled by its root.
-/

namespace Trstctl.Ttlmap

open Go (Bytes Map Time MapOf)

structure ResponseCacheKey where
  tenantID : Bytes
  caID : Bytes
  serial : Bytes
  status : Bytes
  reason : Int
  revokedAt : Time

/-- `ocspResponseCacheKey.String`. -/
def ResponseCacheKey.string (key : ResponseCacheKey) : Bytes :=
  List.intercalate [0x1F]
    [key.tenantID, key.caID, key.serial, key.status, Go.decimal key.reason, key.revokedAt.format]

/-- `ocspResponseCacheEntry`, without its key and its place in the heap. -/
structure ResponseEntry where
  der : Bytes
  nextUpdate : Time
  refreshAt : Time

/-- `ocspExpiryHeap.Less`. -/
def less (entry other : Bytes × ResponseEntry) : Bool :=
  if entry.2.nextUpdate = other.2.nextUpdate then decide (entry.1 < other.1)
  else entry.2.nextUpdate.before other.2.nextUpdate

/-- The root of the heap after one more node. -/
def sooner (top : Option (Bytes × ResponseEntry)) (entry : Bytes × ResponseEntry) :
    Option (Bytes × ResponseEntry) :=
  match top with
  | none => some entry
  | some first => if less entry first then some entry else some first

/-- `c.expiry[0]`: the heap has one node for each entry, and `container/heap`
keeps at its root the least of them. -/
def root (entries : Map ResponseEntry) : Option (Bytes × ResponseEntry) :=
  entries.foldl sooner none

/-- `maxOCSPCacheEntries`. -/
def maxEntries : Nat :=
  8192

variable {entries : Map ResponseEntry} {top : Bytes × ResponseEntry}

theorem foldl_sooner (entries : Map ResponseEntry) (first : Bytes × ResponseEntry) :
    ∃ top ∈ first :: entries, entries.foldl sooner (some first) = some top := by
  induction entries generalizing first with
  | nil => exact ⟨first, List.mem_singleton_self first, rfl⟩
  | cons entry rest ih =>
      rw [List.foldl_cons, sooner]
      split_ifs
      · obtain ⟨top, member, found⟩ := ih entry
        exact ⟨top, List.mem_cons_of_mem _ member, found⟩
      · obtain ⟨top, member, found⟩ := ih first
        refine ⟨top, ?_, found⟩
        rcases List.mem_cons.mp member with rfl | later
        · exact List.mem_cons_self
        · exact List.mem_cons_of_mem _ (List.mem_cons_of_mem _ later)

theorem eq_nil_of_root (empty : root entries = none) : entries = [] := by
  cases entries with
  | nil => rfl
  | cons entry rest =>
      obtain ⟨top, -, found⟩ := foldl_sooner rest entry
      cases empty.symm.trans found

theorem length_delete_root (found : root entries = some top) :
    (MapOf.delete entries top.1).length < entries.length := by
  have member : top ∈ entries := by
    cases entries with
    | nil => cases found
    | cons entry rest =>
        obtain ⟨other, member, same⟩ := foldl_sooner rest entry
        rwa [Option.some.inj (found.symm.trans same)]
  exact List.length_filter_lt_length_iff_exists.mpr ⟨top, member, by simp⟩

/-- The loop that removes expired entries from the root of the heap. -/
def dropExpired (entries : Map ResponseEntry) (now : Time) : Map ResponseEntry :=
  match _ : root entries with
  | none => entries
  | some top =>
      if top.2.nextUpdate.after now then entries
      else dropExpired (MapOf.delete entries top.1) now
termination_by entries.length
decreasing_by
  rename_i found _
  exact length_delete_root found

/-- The loop that removes the soonest to expire from a full cache. -/
def dropSoonest (entries : Map ResponseEntry) : Map ResponseEntry :=
  if entries.length < maxEntries then entries
  else
    match _ : root entries with
    | none => entries
    | some top => dropSoonest (MapOf.delete entries top.1)
termination_by entries.length
decreasing_by
  rename_i found
  exact length_delete_root found

def evictLocked (entries : Map ResponseEntry) (now : Time) : Map ResponseEntry :=
  if entries.length < maxEntries then entries else dropSoonest (dropExpired entries now)

/-- `ocspResponseCache.get`, with the entries left. -/
def get (entries : Map ResponseEntry) (key : ResponseCacheKey) (now : Time) :
    Option Bytes × Map ResponseEntry :=
  match entries.lookup key.string with
  | none => (none, entries)
  | some entry =>
      if !entry.nextUpdate.after now then (none, MapOf.delete entries key.string)
      else if !entry.refreshAt.after now then (none, entries)
      else (some entry.der, entries)

/-- The entry that `put` makes, due at the half of its life. -/
def newEntry (der : Bytes) (nextUpdate now : Time) : ResponseEntry :=
  ⟨der, nextUpdate, now.add ((nextUpdate.sub now).tdiv 2)⟩

/-- `ocspResponseCache.put`. -/
def put (entries : Map ResponseEntry) (key : ResponseCacheKey) (der : Bytes)
    (nextUpdate now : Time) : Map ResponseEntry :=
  if der = [] ∨ nextUpdate.isZero then entries
  else
    match entries.lookup key.string with
    | some _ => entries.set key.string (newEntry der nextUpdate now)
    | none => (evictLocked entries now).set key.string (newEntry der nextUpdate now)

/-- A request to the cache. -/
inductive Request where
  | get (key : ResponseCacheKey) (now : Time)
  | put (key : ResponseCacheKey) (der : Bytes) (nextUpdate now : Time)

/-- The entries that a request leaves. -/
def serve (entries : Map ResponseEntry) : Request → Map ResponseEntry
  | .get key now => (get entries key now).2
  | .put key der nextUpdate now => put entries key der nextUpdate now

/-- What the requests last put under the text of a key. -/
def lastPut (id : Bytes) (requests : List Request) : Option ResponseEntry :=
  requests.foldl
    (fun last request =>
      match request with
      | .get _ _ => last
      | .put key der nextUpdate now =>
          if key.string = id ∧ ¬ (der = [] ∨ nextUpdate.isZero) then
            some (newEntry der nextUpdate now)
          else last)
    none

/-- The cache is bounded and has no entry but the last one put under its key. -/
structure Faithful (entries : Map ResponseEntry) (requests : List Request) : Prop where
  distinct : entries.keys.Nodup
  bounded : entries.length ≤ maxEntries
  latest : ∀ id entry, entries.lookup id = some entry → lastPut id requests = some entry

variable {requests : List Request}

theorem Faithful.of_sublist
    {kept : Map ResponseEntry}
    (faithful : Faithful entries requests)
    (sublist : kept.Sublist entries) :
    Faithful kept requests := by
  have distinct := faithful.distinct.sublist (sublist.map Prod.fst)
  refine ⟨distinct, sublist.length_le.trans faithful.bounded, fun id entry found => ?_⟩
  have member := (MapOf.lookup_eq_some_iff distinct).mp found
  exact faithful.latest id entry
    ((MapOf.lookup_eq_some_iff faithful.distinct).mpr (sublist.subset member))

theorem dropExpired_sublist (entries : Map ResponseEntry) (now : Time) :
    (dropExpired entries now).Sublist entries := by
  fun_induction dropExpired entries now with
  | case1 entries empty => exact List.Sublist.refl _
  | case2 entries top found live => exact List.Sublist.refl _
  | case3 entries top found stale ih => exact ih.trans List.filter_sublist

theorem dropSoonest_spec (entries : Map ResponseEntry) :
    (dropSoonest entries).Sublist entries ∧ (dropSoonest entries).length < maxEntries := by
  fun_induction dropSoonest entries with
  | case1 entries room => exact ⟨List.Sublist.refl _, room⟩
  | case2 entries full empty =>
      rw [eq_nil_of_root empty]
      exact ⟨List.Sublist.refl _, by decide⟩
  | case3 entries full top found ih => exact ⟨ih.1.trans List.filter_sublist, ih.2⟩

theorem evictLocked_spec (entries : Map ResponseEntry) (now : Time) :
    (evictLocked entries now).Sublist entries ∧
      (evictLocked entries now).length < maxEntries := by
  rw [evictLocked]
  split_ifs with room
  · exact ⟨List.Sublist.refl _, room⟩
  · obtain ⟨sublist, shorter⟩ := dropSoonest_spec (dropExpired entries now)
    exact ⟨sublist.trans (dropExpired_sublist entries now), shorter⟩

theorem Faithful.set
    {key : ResponseCacheKey} {der : Bytes} {nextUpdate now : Time}
    (faithful : Faithful entries requests)
    (stored : ¬ (der = [] ∨ nextUpdate.isZero))
    (room : (MapOf.delete entries key.string).length < maxEntries) :
    Faithful (entries.set key.string (newEntry der nextUpdate now))
      (requests ++ [.put key der nextUpdate now]) := by
  refine ⟨MapOf.nodup_set _ _ faithful.distinct, room, fun other entry found => ?_⟩
  rw [MapOf.lookup_set] at found
  rw [lastPut, List.foldl_append, List.foldl_cons, List.foldl_nil]
  by_cases same : other = key.string
  · rw [if_pos same] at found
    simpa [same, stored] using found
  · rw [if_neg same] at found
    exact (if_neg fun both => same both.1.symm).trans (faithful.latest other entry found)

theorem Faithful.serve
    (faithful : Faithful entries requests)
    (request : Request) :
    Faithful (Ttlmap.serve entries request) (requests ++ [request]) := by
  have quiet (same : ∀ id, lastPut id (requests ++ [request]) = lastPut id requests) :
      Faithful entries (requests ++ [request]) :=
    ⟨faithful.distinct, faithful.bounded, fun id => same id ▸ faithful.latest id⟩
  cases request with
  | get key now =>
      have kept := quiet fun other => by rw [lastPut, List.foldl_append]; rfl
      unfold Ttlmap.serve Ttlmap.get
      dsimp only
      split
      · exact kept
      · split_ifs
        · exact kept.of_sublist List.filter_sublist
        · exact kept
        · exact kept
  | put key der nextUpdate now =>
      unfold Ttlmap.serve Ttlmap.put
      dsimp only
      split_ifs with rejected
      · exact quiet fun other => by
          simp only [lastPut, List.foldl_append, List.foldl_cons, List.foldl_nil]
          exact if_neg fun both => both.2 rejected
      · split
        · rename_i found
          refine faithful.set rejected (lt_of_lt_of_le ?_ faithful.bounded)
          have member := (MapOf.lookup_eq_some_iff faithful.distinct).mp found
          exact List.length_filter_lt_length_iff_exists.mpr ⟨_, member, by simp⟩
        · obtain ⟨sublist, shorter⟩ := evictLocked_spec entries now
          exact (faithful.of_sublist sublist).set rejected
            (List.filter_sublist.length_le.trans_lt shorter)

theorem faithful_run (requests : List Request) :
    Faithful (requests.foldl serve []) requests := by
  induction requests using List.reverseRecOn with
  | nil => exact ⟨List.nodup_nil, Nat.zero_le _, fun id entry found => by cases found⟩
  | append_singleton requests request ih =>
      rw [List.foldl_append]
      exact ih.serve request

/-- The cache has never more than its capacity, and answers with what was last
put under the key, before the half of its life is over and before it expires. -/
theorem get_serves_latest
    (requests : List Request)
    (key : ResponseCacheKey)
    (now : Time) :
    (requests.foldl serve []).length ≤ maxEntries ∧
      ∀ der, (get (requests.foldl serve []) key now).1 = some der →
        ∃ entry, lastPut key.string requests = some entry ∧ entry.der = der ∧
          now.before entry.refreshAt = true ∧ now.before entry.nextUpdate = true := by
  have faithful := faithful_run requests
  refine ⟨faithful.bounded, fun der answered => ?_⟩
  unfold Ttlmap.get at answered
  split at answered
  · cases answered
  · rename_i entry found
    split_ifs at answered with expired due
    rw [Bool.not_eq_true', Bool.not_eq_false] at expired due
    exact ⟨entry, faithful.latest _ entry found, Option.some.inj answered, due, expired⟩

/-- The key of a response about one serial number. -/
def serialKey : ResponseCacheKey :=
  ⟨Go.bytes "a", Go.bytes "ca-1", Go.bytes "5", Go.bytes "good", 0, Time.zero⟩

/-- An answer a quarter into the life of a response. -/
theorem get_serves_latest_quarter :
    ∃ entry, lastPut serialKey.string [.put serialKey [7] ⟨400⟩ ⟨200⟩] = some entry ∧
      entry.der = [7] ∧
      Time.before ⟨250⟩ entry.refreshAt = true ∧ Time.before ⟨250⟩ entry.nextUpdate = true :=
  (get_serves_latest [.put serialKey [7] ⟨400⟩ ⟨200⟩] serialKey ⟨250⟩).2 [7] (by decide +kernel)

end Trstctl.Ttlmap
