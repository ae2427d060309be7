import Xdccget.AlarmTurns
import Xdccget.AskedRequests
import Xdccget.ByteCounts
import Xdccget.CallbackSteps
import Xdccget.ChecksumPaths
import Xdccget.CleanLines
import Xdccget.ClientLoop
import Xdccget.ClientState
import Xdccget.CommandDispatch
import Xdccget.Commands
import Xdccget.CompletedTransfers
import Xdccget.DccAccepts
import Xdccget.DccEvents
import Xdccget.DccMessages
import Xdccget.DccOffers
import Xdccget.DccSessions
import Xdccget.DelayedRequests
import Xdccget.DownloadSpecs
import Xdccget.DownloadTable
import Xdccget.DownloadTurns
import Xdccget.Downloads
import Xdccget.EventSpecs
import Xdccget.FailedTransfers
import Xdccget.FreeCallbacks
import Xdccget.HaltingPrograms
import Xdccget.HandlerOutcomes
import Xdccget.IrcParserBounds
import Xdccget.IrcParserCarry
import Xdccget.LineOwnership
import Xdccget.LineParser
import Xdccget.LineSteps
import Xdccget.LineWords
import Xdccget.LinkedNodes
import Xdccget.ListIntegrity
import Xdccget.LoggedTurns
import Xdccget.LoopFrames
import Xdccget.LoopLines
import Xdccget.NickFaults
import Xdccget.OwnNick
import Xdccget.PairFraming
import Xdccget.ParameterUse
import Xdccget.PassiveResume
import Xdccget.ProgramRelations
import Xdccget.ProgressTimer
import Xdccget.QueuedTexts
import Xdccget.QuitTiming
import Xdccget.ReceivedBytes
import Xdccget.RemovedSessions
import Xdccget.RenderedLines
import Xdccget.ReplyLines
import Xdccget.RequestTurns
import Xdccget.ResumeAddressing
import Xdccget.ResumedFile
import Xdccget.Scanf
import Xdccget.ServerStream
import Xdccget.SessionCallbacks
import Xdccget.SessionNodes
import Xdccget.SessionNodesAgree
import Xdccget.SessionSpecs
import Xdccget.SessionStreams
import Xdccget.SocketArming
import Xdccget.StepRuns
import Xdccget.StreamEffects
import Xdccget.TableChanges
import Xdccget.TlsRetries
import Xdccget.CtcpUnwrapping
import Xdccget.BackendAgreement
import Xdccget.ConnectAttempts
import Xdccget.CtcpReplies
import Xdccget.LockBalance
import Xdccget.Acknowledgements
import Xdccget.DownloadArguments
import Xdccget.OutboundLines
import Xdccget.SetUpAtomicity
import Xdccget.PairedLines
import Xdccget.PairedTurns
import Xdccget.StrangerLines
import Xdccget.RingRecords
import Xdccget.SpeedRing
import Xdccget.HashStrings
import Xdccget.NoticeSums
import Xdccget.SpeedLimits
import Xdccget.ReflectedSums
import Xdccget.Throttle
import Xdccget.TargetPaths
import Xdccget.Registration
import Xdccget.TransferSpeeds
import Xdccget.TrustPrompts
import Xdccget.ConfigText
import Xdccget.ConfigTextLines
import Xdccget.ConfigTextSettings
import Xdccget.ConfigTextDefault
import Xdccget.RandomIndices
import Xdccget.SizedWriters
import Xdccget.ColorCodes
import Xdccget.ColorSizing
import Xdccget.SelectedPlaces
import Xdccget.ColorStrip
import Xdccget.StreamedBlocks
import Xdccget.Md5Rounds
import Xdccget.Md5Context
import Xdccget.Md5Digests
import Xdccget.FileDigests
import Xdccget.RotatedBlocks
import Xdccget.Getopt
import Xdccget.CommandLines
import Xdccget.Arguments
import Xdccget.TerminatedBuffers
import Xdccget.SdsStrings
import Xdccget.SdsContents
import Xdccget.TransferFrames
import Xdccget.SpokenLines
import Xdccget.WiredClient
import Xdccget.SeparateFiles
import Xdccget.WholeFiles
import Xdccget.StartUp
