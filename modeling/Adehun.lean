import Adehun.Sessions.Discipline
import Adehun.Routine.Requests
import Adehun.LedgerBalance
import Adehun.EscrowOnce
import Adehun.DisputeFreeze
import Adehun.AgreementOver
import Adehun.Redelivery
import Adehun.LiveFunding
import Adehun.DisputeFinality
import Adehun.Reservations
import Adehun.TokenRotation
import Adehun.Backfill
import Adehun.LiveInvitation
import Adehun.Restart
import Adehun.Addressing
import Adehun.TokenCache
import Adehun.AssetCache
import Adehun.ConnectionManager
import Adehun.CloudinaryUrl
import Adehun.NairaKobo
import Adehun.SavedAccounts
import Adehun.PaidOut
import Adehun.Movements
import Adehun.WalletMerge
import Adehun.ParticipantMerge
import Adehun.TransactionHistory
import Adehun.Solvency
