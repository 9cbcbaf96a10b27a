/-
  bootloader_flash.py, `enumerate_online_nodes`: the client pings the boards and collects the nodes
  that answer.

  There is one datagram read for each of the three pings. `enumerate_finds_all_iff`: the boards are
  all found if and only if each of them has sent one of the first three datagrams, so that only a
  single board is found whatever the order, and never more than three.
-/
import CanBootloader.Client.Retry
import Mathlib.Data.List.ProdSigma

namespace CanBootloader

/-- `ENUMERATION_RETRIES`. -/
def enumerationRetries : Nat := 3

/-- `all_boards_online`. -/
def allBoardsOnline (boards : List Nat) (onlineBoards : Finset Nat) : Bool :=
  boards.all fun id => id ∈ onlineBoards

/-- The loop of `enumerate_online_nodes`: every round transmits a ping and takes one yield of the
    reader; `none` while it waits for one. -/
def enumerateLoop (boards : List Nat) : Nat → Finset Nat → List Yield → Option (Finset Nat)
  | 0, onlineBoards, _ => some onlineBoards
  | _ + 1, _, [] => none
  | retries + 1, onlineBoards, .timeout :: ys => enumerateLoop boards retries onlineBoards ys
  | retries + 1, onlineBoards, .datagram _ _ src :: ys =>
      let onlineBoards := insert src onlineBoards
      if allBoardsOnline boards onlineBoards then some onlineBoards
      else enumerateLoop boards retries onlineBoards ys

/-- `enumerate_online_nodes` on these yields of its reader; `none` also when `write_command`
    raises. -/
def enumerateOnlineNodes (boards : List Nat) (ys : List Yield) : Option (Finset Nat) :=
  (writeCommand encodePing boards 0).bind fun _ => enumerateLoop boards enumerationRetries ∅ ys

/-! ## What is found -/

def Yield.source? : Yield → Option Nat
  | .timeout => none
  | .datagram _ _ src => some src

variable {boards : List Nat}

/-- All boards are found if each of them is known or heard in one of the rounds left. -/
theorem enumerateLoop_finds (retries : Nat) : ∀ (onlineBoards : Finset Nat) (ys : List Yield),
    retries ≤ ys.length →
      ((∃ found, enumerateLoop boards retries onlineBoards ys = some found ∧
          ∀ b ∈ boards, b ∈ found) ↔
        ∀ b ∈ boards, b ∈ onlineBoards ∨ b ∈ (ys.take retries).filterMap Yield.source?) := by
  induction retries with
  | zero => intro onlineBoards ys _; simp [enumerateLoop]
  | succ retries ih =>
      intro onlineBoards ys hlen
      cases ys with
      | nil => simp at hlen
      | cons y ys =>
          have hlen' : retries ≤ ys.length := by simpa using hlen
          cases y with
          | timeout =>
              rw [enumerateLoop, ih onlineBoards ys hlen', List.take_succ_cons,
                List.filterMap_cons]
              rfl
          | datagram data dst src =>
              have hheard : ∀ b, (b ∈ onlineBoards ∨ b ∈ ((Yield.datagram data dst src ::
                  ys).take (retries + 1)).filterMap Yield.source?) ↔
                    b ∈ insert src onlineBoards ∨
                      b ∈ (ys.take retries).filterMap Yield.source? := by
                intro b
                rw [List.take_succ_cons, List.filterMap_cons, Finset.mem_insert]
                simp only [Yield.source?, List.mem_cons]
                tauto
              simp only [hheard]
              by_cases hall : allBoardsOnline boards (insert src onlineBoards) = true
              · have hmem : ∀ b ∈ boards, b ∈ insert src onlineBoards := by
                  simpa [allBoardsOnline] using hall
                simp only [enumerateLoop, if_pos hall]
                exact iff_of_true ⟨_, rfl, hmem⟩ fun b hb => .inl (hmem b hb)
              · simp only [enumerateLoop, if_neg hall]
                exact ih (insert src onlineBoards) ys hlen'

/-! ## Responsive boards -/

/-- The reply of a board to one of the pings, counted from zero. -/
structure PingReply where
  board : Nat
  ping : Nat
  data : List UInt8
  dst : List UInt8
  deriving DecidableEq

/-- The order in which the replies to all pings arrive: every board sends one to each ping, and
    what is read behind ping `k` answers no later one. Those that the loop does not read may
    never be sent. -/
structure Arrivals (boards : List Nat) (replies : List PingReply) : Prop where
  complete : (replies.map fun r => (r.board, r.ping)).Perm
    (boards.product (List.range enumerationRetries))
  causal : ∀ k, ∀ h : k < replies.length, (replies.get ⟨k, h⟩).ping ≤ k

/-- What the reader yields: no timeout as long as a reply is under way. -/
def arriving (replies : List PingReply) : List Yield :=
  replies.map (fun r => .datagram r.data r.dst r.board) ++
    List.replicate enumerationRetries .timeout

/-- The set returned contains all boards. -/
def FindsAll (boards : List Nat) (replies : List PingReply) : Prop :=
  ∃ found, enumerateOnlineNodes boards (arriving replies) = some found ∧ ∀ b ∈ boards, b ∈ found

/-- The boards of the first datagrams, as many as there are pings. -/
def boardsRead (replies : List PingReply) : List Nat :=
  (replies.take enumerationRetries).map PingReply.board

theorem sources_arriving (replies : List PingReply) :
    ((arriving replies).take enumerationRetries).filterMap Yield.source? = boardsRead replies := by
  have htimeout : Yield.source? .timeout = none := rfl
  rw [arriving, List.take_append, List.filterMap_append, List.take_replicate,
    List.filterMap_replicate_of_none htimeout, List.append_nil, ← List.map_take,
    List.filterMap_map, boardsRead]
  change List.filterMap (some ∘ PingReply.board) _ = _
  rw [List.filterMap_eq_map]

/-- IDs of 7 bits fit the field of the list. -/
theorem writeCommand_ping (hdistinct : boards.Nodup) (hids : ∀ b ∈ boards, b < 128) :
    (writeCommand encodePing boards 0).isSome = true := by
  have hsub : boards ⊆ List.range 128 := fun b hb => List.mem_range.mpr (hids b hb)
  have hlen := (hdistinct.subperm hsub).length_le
  rw [List.length_range] at hlen
  rw [writeCommand_isSome_iff]
  exact ⟨fun d hd => by have := hids d hd; omega, by omega, by decide⟩

theorem findsAll_iff (hdistinct : boards.Nodup) (hids : ∀ b ∈ boards, b < 128)
    (replies : List PingReply) :
    FindsAll boards replies ↔ ∀ b ∈ boards, b ∈ boardsRead replies := by
  obtain ⟨frames, hframes⟩ := Option.isSome_iff_exists.mp (writeCommand_ping hdistinct hids)
  have hloop := @enumerateLoop_finds boards enumerationRetries ∅ (arriving replies)
    (by simp [arriving])
  simp only [sources_arriving, Finset.notMem_empty, false_or] at hloop
  rw [FindsAll, enumerateOnlineNodes, hframes]
  exact hloop

/-! ## Orders of arrival -/

/-- Board after board, each with its replies to all pings. -/
def boardByBoard (boards : List Nat) : List PingReply :=
  (boards.product (List.range enumerationRetries)).map fun p => ⟨p.1, p.2, [], []⟩

theorem arrivals_boardByBoard (boards : List Nat) : Arrivals boards (boardByBoard boards) where
  complete := by
    rw [boardByBoard, List.map_map]
    simp [Function.comp_def]
  causal := by
    intro k hk
    by_cases hlate : 2 ≤ k
    · have hmem := List.get_mem (boardByBoard boards) ⟨k, hk⟩
      obtain ⟨p, hp, heq⟩ := List.mem_map.mp hmem
      have hping := List.mem_range.mp (List.pair_mem_product.mp hp).2
      have hthree : enumerationRetries = 3 := rfl
      rw [← heq]
      simp only
      omega
    · -- the first board, and its replies to the first two pings
      cases boards with
      | nil => exact absurd hk (Nat.not_lt_zero k)
      | cons b boards =>
          have hk' : k = 0 ∨ k = 1 := by omega
          rcases hk' with rfl | rfl
          · exact Nat.le_refl 0
          · exact Nat.le_refl 1

/-- One board alone is found. -/
theorem findsAll_single {b : Nat} (hid : b < 128) {replies : List PingReply}
    (h : Arrivals [b] replies) : FindsAll [b] replies := by
  rw [findsAll_iff (List.nodup_singleton b) (by simpa using hid)]
  cases replies with
  | nil => exact absurd h.complete.nil_eq (List.cons_ne_nil _ _).symm
  | cons r replies =>
      have hmem := h.complete.subset (List.mem_cons_self)
      have hboard : r.board = b := List.mem_singleton.mp (List.pair_mem_product.mp hmem).1
      intro b' hb'
      rw [List.mem_singleton.mp hb', ← hboard]
      exact List.mem_cons_self

/-- The boards are found if and only if each has sent one of the first three datagrams. In every
    order of arrival that is so for a single board only, and in no order for more than three. -/
theorem enumerate_finds_all_iff (boards : List Nat) (hdistinct : boards.Nodup)
    (hids : ∀ b ∈ boards, b < 128) :
    (∀ replies, Arrivals boards replies →
      (FindsAll boards replies ↔ ∀ b ∈ boards, b ∈ boardsRead replies)) ∧
    ((∀ replies, Arrivals boards replies → FindsAll boards replies) ↔ boards.length ≤ 1) ∧
    (enumerationRetries < boards.length →
      ∀ replies, Arrivals boards replies → ¬ FindsAll boards replies) := by
  refine ⟨fun replies _ => findsAll_iff hdistinct hids replies, ⟨fun hall => ?_, fun hlen => ?_⟩,
    fun hmany replies _ hfinds => ?_⟩
  · -- the replies of the first board come before those of the second
    have hfinds := hall _ (arrivals_boardByBoard boards)
    rw [findsAll_iff hdistinct hids] at hfinds
    match boards, hdistinct, hfinds with
    | [], _, _ => exact Nat.zero_le 1
    | [_], _, _ => exact Nat.le_refl 1
    | a :: b :: rest, hdistinct, hfinds =>
        have hread : boardsRead (boardByBoard (a :: b :: rest)) = [a, a, a] := rfl
        have hb := hfinds b (by simp)
        rw [hread] at hb
        have heq : b = a := by simpa using hb
        simp [heq] at hdistinct
  · intro replies hreplies
    match boards, hids, hlen, hreplies with
    | [], hids, _, _ => exact (findsAll_iff List.nodup_nil hids replies).mpr (by simp)
    | [b], hids, _, hreplies => exact findsAll_single (hids b (by simp)) hreplies
    | _ :: _ :: _, _, hlen, _ => simp at hlen
  · rw [findsAll_iff hdistinct hids] at hfinds
    have hle := (hdistinct.subperm hfinds).length_le
    rw [boardsRead, List.length_map, List.length_take] at hle
    omega

/-- Two boards whose replies to each ping arrive together. -/
def pairwise : List PingReply :=
  [⟨1, 0, [], []⟩, ⟨2, 0, [], []⟩, ⟨2, 1, [], []⟩, ⟨1, 1, [], []⟩, ⟨1, 2, [], []⟩, ⟨2, 2, [], []⟩]

/-- A single board, and two boards in this order. -/
theorem enumerate_finds_all_iff_both :
    FindsAll [5] (boardByBoard [5]) ∧ FindsAll [1, 2] pairwise :=
  ⟨((enumerate_finds_all_iff [5] (by decide) (by decide)).2.1.mpr (by decide)) _
    (arrivals_boardByBoard [5]),
   ((enumerate_finds_all_iff [1, 2] (by decide) (by decide)).1 pairwise
    ⟨by decide, by decide⟩).mpr (by decide)⟩

/-- Four boards whose replies to the first ping all arrive before any to the second. -/
def pingByPing : List PingReply :=
  [⟨1, 0, [], []⟩, ⟨2, 0, [], []⟩, ⟨3, 0, [], []⟩, ⟨4, 0, [], []⟩,
   ⟨1, 1, [], []⟩, ⟨2, 1, [], []⟩, ⟨3, 1, [], []⟩, ⟨4, 1, [], []⟩,
   ⟨1, 2, [], []⟩, ⟨2, 2, [], []⟩, ⟨3, 2, [], []⟩, ⟨4, 2, [], []⟩]

/-- The last of them is missed. -/
theorem enumerate_misses_fourth : Arrivals [1, 2, 3, 4] pingByPing ∧
    ¬ FindsAll [1, 2, 3, 4] pingByPing := by
  refine ⟨⟨by decide, by decide⟩, fun hfinds => ?_⟩
  rw [findsAll_iff (by decide) (by decide)] at hfinds
  exact absurd (hfinds 4 (by decide)) (by decide)

end CanBootloader
