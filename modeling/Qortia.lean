import Qortia.TenantIsolation
import Qortia.Context
import Qortia.ReflectSupersede
import Qortia.ReflectRuns
import Qortia.Knowledge
import Qortia.Remember
import Qortia.EmbeddingLaws
import Qortia.GraphMirror
import Qortia.ForgetRuns
import Qortia.RecallClearance
import Qortia.Outcome
import Qortia.Lib.Journal
import Qortia.AuditTrail
import Qortia.Lib.Transaction
import Qortia.RememberBatch
import Qortia.Lib.CheckThenInsert
import Qortia.RememberRuns
import Qortia.Lib.Ranking
import Qortia.RecallRoutes
import Qortia.RecallResults
import Qortia.RecallPrivate
import Qortia.RecallDistinct
import Qortia.RecallView
import Qortia.RecallApart
import Qortia.Dedup
import Qortia.EmbeddingBatch
import Qortia.Lib.WorkQueue
import Qortia.EmbeddingClaims
import Qortia.LinkRuns
import Qortia.RecallCounts
import Qortia.WeeklySummary
import Qortia.Lib.Raising
import Qortia.Chat
import Qortia.Lib.Replacing
import Qortia.KnowledgeRuns
import Qortia.OutcomeRuns
import Qortia.Lib.Conflicts
import Qortia.OutcomeApart
import Qortia.RecallRerank
import Qortia.Cosine
import Qortia.Diversify
import Qortia.RecallKnowledge
import Qortia.ReciprocalRank
import Qortia.ForgetRequest
import Qortia.Lib.FirstSeen
import Qortia.ReflectCommits
import Qortia.IngestRows
import Qortia.OrgReadable
import Qortia.Lib.Copying
import Qortia.KnowledgeEmbeddings
import Qortia.ReflectStored
import Qortia.Lib.Budget
import Qortia.Budgets
import Qortia.Lib.Quota
import Qortia.LinkExpansion
import Qortia.GraphFaults
import Qortia.EmbeddingProgress
import Qortia.EntityTraversal
import Qortia.EmbeddingCache
import Qortia.Lib.Packing
import Qortia.Lib.Words
import Qortia.HeadingLines
import Qortia.SectionBudget
import Qortia.SectionWords
import Qortia.ParagraphChunks
import Qortia.LanguageTags
import Qortia.AgentIdentities
import Qortia.Expiry
import Qortia.OutcomeRanking
import Qortia.AccessCounts
import Qortia.IdleReflection
import Qortia.RecallSummary
import Qortia.Authentication
import Qortia.Forgotten
import Qortia.Provisioned
import Qortia.TenantWrites
import Qortia.Accountability
import Qortia.StoredMemories
import Qortia.TenantReads
import Qortia.GraphProgress
import Qortia.RememberedRecall
import Qortia.Lib.Placeholders
import Qortia.RecallQueries
import Qortia.RecallStatements
import Qortia.ElectedSummaries
