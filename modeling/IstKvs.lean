import IstKvs.Handover
import IstKvs.SlotScan
import IstKvs.SessionOwner
import IstKvs.NotificationLeak
import IstKvs.PeerCrash
import IstKvs.EndOfFile
import IstKvs.SignalReset
import IstKvs.FiniteMap
import IstKvs.JobNotifications
import IstKvs.AdmittedKeys
import IstKvs.ScriptRoundTrip
import IstKvs.NumberReading
import IstKvs.FinalNewline
import IstKvs.DisjointJobs
import IstKvs.JobDispatch
import IstKvs.BackupLimit
import IstKvs.SubscriptionList
import IstKvs.SubscriptionSet
import IstKvs.Messages
import IstKvs.NotificationStream
import IstKvs.DescriptorBalance
import IstKvs.ShiftUnderScan
import IstKvs.DeletionNotices
import IstKvs.SubscribeAnswer
import IstKvs.UnsubscribeExact
import IstKvs.ClientReports
import IstKvs.BackupNames
import IstKvs.OutputPaths
import IstKvs.OutputLines
import IstKvs.BackupLines
import IstKvs.LineRecovery
import IstKvs.ParserReadings
import IstKvs.ArgumentRecovery
import IstKvs.ListGrammar
import IstKvs.ClientParser
import IstKvs.TokenBounds
import IstKvs.ClientLines
import IstKvs.BackupProgress
import IstKvs.KvsMemory
import IstKvs.StoreMemory
import IstKvs.TableLock
import IstKvs.Registration
import IstKvs.SessionDialogue
import IstKvs.ClientScripts
import IstKvs.JobMeaning
import IstKvs.JobThreads
import IstKvs.JobSerial
import IstKvs.JobIsolation
import IstKvs.JobCompletion
import IstKvs.JobNotices
import IstKvs.JobSubscribers
import IstKvs.ServerProgress
