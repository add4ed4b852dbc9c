import PaymentSystem.System.Schedule

/-! Users and wallets. A registration commits a user and the user's wallet together or
nothing, and no other operation adds or removes either, so the two tables stay in
bijection and a wallet lookup by user id has at most one row. -/
namespace PaymentSystem
open Interleaving (Program)

section
variable {t : Tables}

theorem Tables.Paired.oneWallet (paired : t.Paired) {user : User} (here : user ∈ t.users) :
    ∃! wallet, wallet ∈ t.wallets ∧ wallet.userId = user.id := by
  have owned : user.id ∈ t.wallets.map Wallet.userId := paired.owners ▸ List.mem_map_of_mem here
  obtain ⟨wallet,inside,owner⟩ := List.mem_map.mp owned
  refine ⟨wallet,⟨inside,owner⟩,?_⟩
  rintro other ⟨inside',owner'⟩
  exact Tables.uniqueBy (paired.owners ▸ paired.userIds) inside' inside (owner'.trans owner.symm)

theorem Tables.Paired.oneUser (paired : t.Paired) {wallet : Wallet} (here : wallet ∈ t.wallets) :
    ∃! user, user ∈ t.users ∧ user.id = wallet.userId := by
  have owned : wallet.userId ∈ t.users.map User.id := paired.owners ▸ List.mem_map_of_mem here
  obtain ⟨user,inside,same⟩ := List.mem_map.mp owned
  refine ⟨user,⟨inside,same⟩,?_⟩
  rintro other ⟨inside',same'⟩
  exact Tables.uniqueBy paired.userIds inside' inside (same'.trans same.symm)

theorem Tables.Paired.lookup (paired : t.Paired) (keyed : t.Keyed) (userId : UUID) :
    (t.walletsByUserId userId).length ≤ 1 ∧
      (t.walletsByUserId userId = [] ↔ ∀ user ∈ t.users, user.id ≠ userId) := by
  rcases keyed.ownerLookup userId with none | ⟨wallet,here,owner,one⟩
  · refine ⟨by simp [none],fun _ user here same => ?_,fun _ => none⟩
    obtain ⟨wallet,⟨inside,owner⟩,_⟩ := paired.oneWallet here
    have found := Tables.walletsByUserIdMem.mpr ⟨inside,owner.trans same⟩
    rw [none] at found
    contradiction
  · refine ⟨by simp [one],fun none => by simp [none] at one,fun unregistered => ?_⟩
    obtain ⟨user,⟨inside,same⟩,_⟩ := paired.oneUser here
    exact absurd (same.trans owner) (unregistered user inside)

end

theorem usersOwnWallets [Pydantic] {c : State} (reachable : Reachable c) :
    (∀ user ∈ c.shared.tables.users,
      ∃! wallet, wallet ∈ c.shared.tables.wallets ∧ wallet.userId = user.id) ∧
      (∀ wallet ∈ c.shared.tables.wallets,
        ∃! user, user ∈ c.shared.tables.users ∧ user.id = wallet.userId) ∧
      (c.shared.tables.users.map User.email).Nodup ∧
      (∀ x ∈ c.shared.tables.transactions, x.senderWalletId ≠ x.receiverWalletId ∧
        x.senderWalletId ∈ c.shared.tables.wallets.map Wallet.id ∧
        x.receiverWalletId ∈ c.shared.tables.wallets.map Wallet.id) ∧
      ∀ pid userId next choice (rows : List Wallet) s',
        c.running[pid]? = some (.call (.selectWalletByUserId userId) next) →
        attempt pid c.shared.stores (.selectWalletByUserId userId) choice =
          some ((.ok rows : Except Exn (List Wallet)),s') →
        rows.length ≤ 1 ∧ (rows = [] ↔ ∀ user ∈ c.shared.tables.users, user.id ≠ userId) := by
  have intact := reachableIntact reachable
  have paired : c.shared.tables.Paired := intact.replayed ▸ intact.legal.paired
  refine ⟨fun user here => paired.oneWallet here,fun wallet here => paired.oneUser here,paired.emails,?_,?_⟩
  · exact fun x here => ⟨paired.apart x here,intact.keyed.parties x here⟩
  · intro pid userId next choice rows s' here attempted
    obtain ⟨_,due,_⟩ := reachableDue reachable here
    rcases attemptCases attempted with ⟨_,ran⟩ | ⟨_,raised⟩
    · cases ran
      rw [Database.viewNothing (due.1 rfl)]
      exact paired.lookup intact.keyed userId
    · cases raised

open JsonMode in
theorem usersOwnWalletsOpening :
    (stateAfter opening).shared.tables.users.map User.id = [102,202] ∧
      ((stateAfter opening).shared.tables.users.map User.email).Nodup :=
  ⟨by decide +kernel,(usersOwnWallets (stateReachable opening (by decide +kernel))).2.2.1⟩

end PaymentSystem
